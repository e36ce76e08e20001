import Mathlib.Data.Prod.Lex
import Mathlib.Logic.Function.Basic

/-!
# The event queue of the simulator

`EventQueue` of `src/event/eventq.h` and `src/event/eventq.cpp`. Pending events are kept in
a linked list of bins: the tops of the bins are linked by `nextBin` in increasing
`(when, priority)` order, and the events of one bin, which share that key, are linked from
the top down by `nextInBin`. Every event object carries both pointers, its time, its
priority and its `_scheduled` flag; the state holds these fields for all event objects
together with the two fields of the queue. Event objects are named by an arbitrary type `ι`
with decidable equality, the equality of pointers.

The loops follow pointers and need not end on a cyclic structure, so they take fuel. A failed
`assert` and a read through a null `head` end the program; `std::runtime_error` leaves the
state as it is at the `throw`, and a caller may catch it.
-/

namespace NetSim.Event

abbrev Tick := Nat

abbrev Priority := Int

/-- The queue and the fields of all event objects. -/
structure EventQueue (ι : Type) where
  head : Option ι
  curTick : Tick
  nextBin : ι → Option ι
  nextInBin : ι → Option ι
  when : ι → Tick
  priority : ι → Priority
  scheduled : ι → Bool

/-- Ways in which an operation does not return. -/
inductive Failure (ι : Type)
  /-- `std::runtime_error("event not found!")`, with the state at the `throw`. -/
  | notFound (q : EventQueue ι)
  /-- A failed `assert`. -/
  | assertion
  /-- `head->` on an empty queue. -/
  | nullHead
  | outOfFuel

variable {ι : Type}

namespace EventQueue

/-- A new queue over freshly constructed events of the given priorities. -/
def init (priority : ι → Priority) : EventQueue ι where
  head := none
  curTick := 0
  nextBin := fun _ => none
  nextInBin := fun _ => none
  when := fun _ => 0
  priority := priority
  scheduled := fun _ => false

/-! ## Comparison of events -/

/-- `operator<` -/
def lt (q : EventQueue ι) (l r : ι) : Bool :=
  q.when l < q.when r || (q.when l == q.when r && q.priority l < q.priority r)

/-- `operator<=` -/
def le (q : EventQueue ι) (l r : ι) : Bool :=
  q.when l < q.when r || (q.when l == q.when r && q.priority l ≤ q.priority r)

/-- `operator==` -/
def eq (q : EventQueue ι) (l r : ι) : Bool :=
  q.when l == q.when r && q.priority l == q.priority r

/-- `operator!=` -/
def ne (q : EventQueue ι) (l r : ι) : Bool :=
  q.when l != q.when r || q.priority l != q.priority r

/-- What the comparison operators compare, in lexicographic order. -/
def key (q : EventQueue ι) (e : ι) : Tick ×ₗ Priority := toLex (q.when e, q.priority e)

theorem lt_iff (q : EventQueue ι) (l r : ι) : q.lt l r = true ↔ q.key l < q.key r := by
  simp [lt, key, Prod.Lex.toLex_lt_toLex]

theorem le_iff (q : EventQueue ι) (l r : ι) : q.le l r = true ↔ q.key l ≤ q.key r := by
  simp [le, key, Prod.Lex.toLex_le_toLex]

theorem eq_iff (q : EventQueue ι) (l r : ι) : q.eq l r = true ↔ q.key l = q.key r := by
  simp [eq, key]

theorem ne_iff (q : EventQueue ι) (l r : ι) : q.ne l r = true ↔ q.key l ≠ q.key r := by
  rw [ne_eq, ← eq_iff]
  simp only [ne, eq, bne, ← Bool.not_and, Bool.not_eq_true', Bool.not_eq_true]

/-! ## Operations -/

variable [DecidableEq ι]

@[simps -fullyApplied]
def setWhen (q : EventQueue ι) (event : ι) (when : Tick) : EventQueue ι :=
  { q with when := Function.update q.when event when }

@[simps -fullyApplied]
def setScheduled (q : EventQueue ι) (event : ι) (flag : Bool) : EventQueue ι :=
  { q with scheduled := Function.update q.scheduled event flag }

@[simps -fullyApplied]
def setNextBin (q : EventQueue ι) (event : ι) (p : Option ι) : EventQueue ι :=
  { q with nextBin := Function.update q.nextBin event p }

@[simps -fullyApplied]
def setNextInBin (q : EventQueue ι) (event : ι) (p : Option ι) : EventQueue ι :=
  { q with nextInBin := Function.update q.nextInBin event p }

/-- `Event::insertBefore`; the pointer it returns is `event`. -/
def insertBefore (event : ι) (curr : Option ι) (q : EventQueue ι) :
    Except (Failure ι) (EventQueue ι) :=
  let q := match curr with
    | none => (q.setNextBin event none).setNextInBin event none
    | some c =>
      if q.lt event c then (q.setNextBin event (some c)).setNextInBin event none
      else (q.setNextBin event (q.nextBin c)).setNextInBin event (some c)
  if q.nextBin event = some event then .error .assertion else .ok q

/-- The `while` loop of `Event::removeItem`: the member of the bin right above `event`. -/
def findInBin (q : EventQueue ι) (event : ι) : Nat → ι → Option ι → Except (Failure ι) ι
  | 0, _, _ => .error .outOfFuel
  | fuel + 1, curr, next =>
    if next = some event then .ok curr
    else match next with
      | none => .error (.notFound q)
      | some n => findInBin q event fuel n (q.nextInBin n)

/-- `Event::removeItem`, with the pointer it returns. -/
def removeItem (fuel : Nat) (event top : ι) (q : EventQueue ι) :
    Except (Failure ι) (Option ι × EventQueue ι) :=
  if event = top then
    match q.nextInBin top with
    | none => .ok (q.nextBin top, q)
    | some next => .ok (some next, q.setNextBin next (q.nextBin top))
  else do
    let curr ← findInBin q event fuel top (q.nextInBin top)
    .ok (some top, q.setNextInBin curr (q.nextInBin event))

/-- The `while` loop of `insert` and of `remove`: walk the tops while they are smaller than
`event`, keeping the one before. -/
def findBin (q : EventQueue ι) (event : ι) : Nat → ι → Option ι →
    Except (Failure ι) (ι × Option ι)
  | 0, _, _ => .error .outOfFuel
  | _ + 1, prev, none => .ok (prev, none)
  | fuel + 1, prev, some c =>
    if q.lt c event then findBin q event fuel c (q.nextBin c) else .ok (prev, some c)

/-- `EventQueue::insert` -/
def insert (fuel : Nat) (event : ι) (q : EventQueue ι) : Except (Failure ι) (EventQueue ι) :=
  let q := q.setScheduled event true
  match q.head with
  | none => do
    let q ← insertBefore event none q
    .ok { q with head := some event }
  | some h =>
    if q.le event h then do
      let q ← insertBefore event (some h) q
      .ok { q with head := some event }
    else do
      let (prev, curr) ← findBin q event fuel h (q.nextBin h)
      -- the first call is the argument of an `assert`, the second links the event
      let q ← insertBefore event curr q
      let q ← insertBefore event curr q
      .ok (q.setNextBin prev (some event))

/-- `EventQueue::remove` -/
def remove (fuel : Nat) (event : ι) (q : EventQueue ι) : Except (Failure ι) (EventQueue ι) :=
  let q := q.setScheduled event false
  match q.head with
  | none => .error (.notFound q)
  | some h =>
    if q.eq h event then do
      let (top, q) ← removeItem fuel event h q
      .ok { q with head := top }
    else do
      let (prev, curr) ← findBin q event fuel h (q.nextBin h)
      match curr with
      | none => .error (.notFound q)
      | some c =>
        if q.ne c event then .error (.notFound q)
        else do
          let (top, q) ← removeItem fuel event c q
          .ok (q.setNextBin prev top)

/-- `EventQueue::schedule` -/
def schedule (fuel : Nat) (event : ι) (when : Tick) (q : EventQueue ι) :
    Except (Failure ι) (EventQueue ι) :=
  if q.scheduled event then .error .assertion
  else if when < q.curTick then .error .assertion
  else insert fuel event (q.setWhen event when)

/-- `EventQueue::deschedule` -/
def deschedule (fuel : Nat) (event : ι) (q : EventQueue ι) : Except (Failure ι) (EventQueue ι) :=
  remove fuel event q

/-- `EventQueue::reschedule` -/
def reschedule (fuel : Nat) (event : ι) (when : Tick) (q : EventQueue ι) :
    Except (Failure ι) (EventQueue ι) :=
  if when < q.curTick then .error .assertion
  else insert fuel event (q.setWhen event when)

/-- `EventQueue::serviceOne` up to the call of `process`: unlink the head, set the clock, and
return the event to be processed. -/
def takeHead (q : EventQueue ι) : Except (Failure ι) (ι × EventQueue ι) :=
  match q.head with
  | none => .error .nullHead
  | some event =>
    let next := q.nextInBin event
    let q := q.setScheduled event false
    let q := match next with
      | some n => { q.setNextBin n (q.nextBin event) with head := some n }
      | none => { q with head := q.nextBin event }
    .ok (event, { q with curTick := q.when event })

end EventQueue

/-- A call that a callback or the main program makes on the queue. -/
inductive Call (ι : Type)
  | schedule (event : ι) (when : Tick)
  | deschedule (event : ι)

variable [DecidableEq ι]

def Call.exec (fuel : Nat) : Call ι → EventQueue ι → Except (Failure ι) (EventQueue ι)
  | .schedule event when => EventQueue.schedule fuel event when
  | .deschedule event => EventQueue.deschedule fuel event

/-- The calls of one callback, up to the first that does not return. -/
def Call.execAll (fuel : Nat) : List (Call ι) → EventQueue ι → Except (Failure ι) (EventQueue ι)
  | [], q => .ok q
  | c :: cs, q => do
    let q ← c.exec fuel q
    Call.execAll fuel cs q

/-- `EventQueue::serviceOne`; `process e` lists the calls that `e->process()` makes. -/
def EventQueue.serviceOne (fuel : Nat) (process : ι → List (Call ι)) (q : EventQueue ι) :
    Except (Failure ι) (EventQueue ι) := do
  let (event, q) ← q.takeHead
  Call.execAll fuel (process event) q

end NetSim.Event
