import Mathlib.Data.List.Basic

/-!
# `Lib.AsyncQueue` — a queue with one awaiting consumer

The producer pushes elements; the consumer asks for the next one and gets it at once if there is one, else
leaves a waiter that the next push resolves. An element goes to the consumer from the buffer or straight
through the waiter; `taken` records, whichever way it went, what the consumer has been handed.
-/

/-- A queue; a waiter is only ever left on an empty buffer. -/
structure AsyncQueue (ε : Type*) where
  buf : List ε
  waiter : Bool
  taken : List ε
  idle : waiter = true → buf = []

namespace AsyncQueue

variable {ε : Type*}

/-- A fresh queue. -/
def empty : AsyncQueue ε := { buf := [], waiter := false, taken := [], idle := fun _ => rfl }

/-- Everything that was pushed: handed to the consumer, then still buffered. -/
def pushed (q : AsyncQueue ε) : List ε := q.taken ++ q.buf

/-- The oldest element leaves the buffer; no waiter is left behind. -/
def shift (q : AsyncQueue ε) : AsyncQueue ε :=
  { buf := q.buf.tail, waiter := false, taken := q.taken ++ q.buf.head?.toList,
    idle := fun h => absurd h Bool.false_ne_true }

/-- Push an element, and what the waiter is resolved with if there is one. -/
def push (q : AsyncQueue ε) (x : ε) : AsyncQueue ε × Option ε :=
  let q' : AsyncQueue ε :=
    { buf := q.buf ++ [x], waiter := false, taken := q.taken, idle := fun h => absurd h Bool.false_ne_true }
  if q.waiter then (q'.shift, q'.buf.head?) else (q', none)

/-- Ask for the next element: it is handed over, or a waiter is left. -/
def next (q : AsyncQueue ε) : AsyncQueue ε × Option ε :=
  match h : q.buf with
  | [] => ({ q with waiter := true, idle := fun _ => h }, none)
  | x :: _ => (q.shift, some x)

/-! ## What the operations do -/

theorem push_waiting {q : AsyncQueue ε} (h : q.waiter = true) (x : ε) :
    (q.push x).2 = some x ∧ (q.push x).1.waiter = false ∧ (q.push x).1.taken = q.taken ++ [x] ∧
      (q.push x).1.buf = [] := by
  have hbuf := q.idle h
  simp [push, shift, h, hbuf]

theorem push_busy {q : AsyncQueue ε} (h : q.waiter = false) (x : ε) :
    (q.push x).2 = none ∧ (q.push x).1.waiter = false ∧ (q.push x).1.taken = q.taken ∧
      (q.push x).1.buf = q.buf ++ [x] := by
  simp [push, h]

/-- **Nothing is lost, doubled or reordered by a push.** -/
theorem pushed_push (q : AsyncQueue ε) (x : ε) : (q.push x).1.pushed = q.pushed ++ [x] := by
  cases h : q.waiter with
  | true =>
      obtain ⟨_, _, htaken, hbuf⟩ := push_waiting h x
      rw [pushed, pushed, htaken, hbuf, q.idle h, List.append_nil, List.append_nil]
  | false =>
      obtain ⟨_, _, htaken, hbuf⟩ := push_busy h x
      rw [pushed, pushed, htaken, hbuf, List.append_assoc]

/-- Asking either hands over the oldest element or leaves a waiter on an empty buffer. -/
theorem next_cases (q : AsyncQueue ε) :
    (∃ x rest, q.buf = x :: rest ∧ q.next.2 = some x ∧ q.next.1.waiter = false ∧
      q.next.1.taken = q.taken ++ [x] ∧ q.next.1.buf = rest) ∨
    (q.buf = [] ∧ q.next.2 = none ∧ q.next.1.waiter = true ∧ q.next.1.taken = q.taken ∧
      q.next.1.buf = []) := by
  obtain ⟨buf, waiter, taken, idle⟩ := q
  cases buf with
  | nil => exact .inr ⟨rfl, rfl, rfl, rfl, rfl⟩
  | cons x rest => exact .inl ⟨x, rest, rfl, rfl, rfl, rfl, rfl⟩

/-- **Nor by asking.** -/
theorem pushed_next (q : AsyncQueue ε) : q.next.1.pushed = q.pushed := by
  rcases q.next_cases with ⟨x, rest, hbuf, _, _, htaken, hrest⟩ | ⟨hbuf, _, _, htaken, hrest⟩
  · rw [pushed, pushed, htaken, hrest, hbuf, List.append_assoc, List.singleton_append]
  · rw [pushed, pushed, htaken, hrest, hbuf]

end AsyncQueue
