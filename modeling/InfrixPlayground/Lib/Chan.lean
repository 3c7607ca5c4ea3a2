import Mathlib.Data.List.Basic

/-!
# `Lib.Chan` — a buffered channel

A channel with a fixed buffer, its two kinds of send (blocking and `select … default`), its close and
its receive. What a program must never do with a channel does not stop the model: it is recorded as a
`Fault`, so that "no run ever does it" is a statement about the states a run reaches. Two more history
variables record what receivers have taken and what a `default` branch has dropped; `sent` is all that
ever went through.
-/

/-- What must not happen to a channel: two run-time panics, and a send that blocks its caller. -/
inductive Chan.Fault where
  | sendOnClosed
  | closeOfClosed
  | wouldBlock
deriving DecidableEq, Repr

/-- A buffered channel; `fits` keeps the buffer within its capacity. -/
structure Chan (ε : Type*) where
  cap : Nat
  buf : List ε
  closed : Bool
  taken : List ε
  dropped : List ε
  fault : Option Chan.Fault
  fits : buf.length ≤ cap

namespace Chan

variable {ε : Type*}

/-- A fresh open channel. -/
def make (cap : Nat) : Chan ε :=
  { cap, buf := [], closed := false, taken := [], dropped := [], fault := none, fits := Nat.zero_le _ }

/-- Everything that went through the channel: taken by receivers, then still buffered. -/
def sent (c : Chan ε) : List ε := c.taken ++ c.buf

/-- Put an element into the free room of the buffer. -/
def push (c : Chan ε) (e : ε) (h : c.buf.length < c.cap) : Chan ε :=
  { c with buf := c.buf ++ [e], fits := by rw [List.length_append, List.length_singleton]; exact h }

/-- `ch <- e`. -/
def send (c : Chan ε) (e : ε) : Chan ε :=
  if c.closed then { c with fault := some .sendOnClosed }
  else if h : c.buf.length < c.cap then c.push e h
  else { c with fault := some .wouldBlock }

/-- `select { case ch <- e: default: }`. -/
def trySend (c : Chan ε) (e : ε) : Chan ε :=
  if c.closed then { c with fault := some .sendOnClosed }
  else if h : c.buf.length < c.cap then c.push e h
  else { c with dropped := c.dropped ++ [e] }

/-- `close(ch)`. -/
def close (c : Chan ε) : Chan ε :=
  if c.closed then { c with fault := some .closeOfClosed } else { c with closed := true }

/-- A receiver takes the oldest buffered element, if there is one. -/
def recv (c : Chan ε) : Chan ε :=
  match c with
  | ⟨cap, e :: rest, closed, taken, dropped, fault, fits⟩ =>
      ⟨cap, rest, closed, taken ++ [e], dropped, fault, Nat.le_of_succ_le fits⟩
  | c => c

/-! ## What each operation does to the fields -/

@[simp] theorem sent_push (c : Chan ε) (e : ε) (h : c.buf.length < c.cap) :
    (c.push e h).sent = c.sent ++ [e] := by
  simp [sent, push]

@[simp] theorem sent_close (c : Chan ε) : c.close.sent = c.sent := by
  unfold close; split <;> rfl

@[simp] theorem sent_recv (c : Chan ε) : c.recv.sent = c.sent := by
  obtain ⟨cap, buf, closed, taken, dropped, fault, fits⟩ := c
  cases buf with
  | nil => rfl
  | cons e rest => simp [recv, sent]

@[simp] theorem closed_recv (c : Chan ε) : c.recv.closed = c.closed := by
  obtain ⟨cap, buf, closed, taken, dropped, fault, fits⟩ := c
  cases buf <;> rfl

@[simp] theorem dropped_recv (c : Chan ε) : c.recv.dropped = c.dropped := by
  obtain ⟨cap, buf, closed, taken, dropped, fault, fits⟩ := c
  cases buf <;> rfl

@[simp] theorem fault_recv (c : Chan ε) : c.recv.fault = c.fault := by
  obtain ⟨cap, buf, closed, taken, dropped, fault, fits⟩ := c
  cases buf <;> rfl

@[simp] theorem cap_recv (c : Chan ε) : c.recv.cap = c.cap := by
  obtain ⟨cap, buf, closed, taken, dropped, fault, fits⟩ := c
  cases buf <;> rfl

theorem taken_recv {c : Chan ε} {e : ε} {rest : List ε} (h : c.buf = e :: rest) :
    c.recv.taken = c.taken ++ [e] := by
  obtain ⟨cap, buf, closed, taken, dropped, fault, fits⟩ := c
  cases h
  rfl

theorem buf_recv {c : Chan ε} {e : ε} {rest : List ε} (h : c.buf = e :: rest) : c.recv.buf = rest := by
  obtain ⟨cap, buf, closed, taken, dropped, fault, fits⟩ := c
  cases h
  rfl

/-- Closing an open channel panics nothing. -/
theorem close_open {c : Chan ε} (h : c.closed = false) : c.close = { c with closed := true } := by
  simp [close, h]

/-- An open channel with room takes the element. -/
theorem trySend_room {c : Chan ε} {e : ε} (ho : c.closed = false) (h : c.buf.length < c.cap) :
    c.trySend e = c.push e h := by
  simp [trySend, ho, h]

theorem send_room {c : Chan ε} {e : ε} (ho : c.closed = false) (h : c.buf.length < c.cap) :
    c.send e = c.push e h := by
  simp [send, ho, h]

/-- No more can be buffered than went through. -/
theorem buf_length_le_sent (c : Chan ε) : c.buf.length ≤ c.sent.length := by
  rw [sent, List.length_append]; exact Nat.le_add_left _ _

/-- **Prefill.** Sending a list that fits into the free room of an open channel delivers all of it, in
    order, and neither panics nor blocks. -/
theorem foldl_send_room : ∀ (l : List ε) (c : Chan ε), c.closed = false →
    c.buf.length + l.length ≤ c.cap →
      (l.foldl send c).sent = c.sent ++ l ∧ (l.foldl send c).closed = false ∧
      (l.foldl send c).dropped = c.dropped ∧ (l.foldl send c).fault = c.fault ∧
      (l.foldl send c).cap = c.cap := by
  intro l
  induction l with
  | nil => intro c ho _; exact ⟨(List.append_nil _).symm, ho, rfl, rfl, rfl⟩
  | cons e l ih =>
      intro c ho hroom
      rw [List.length_cons] at hroom
      have hlt : c.buf.length < c.cap := by omega
      rw [List.foldl_cons, send_room ho hlt]
      have hlen : (c.push e hlt).buf.length + l.length ≤ (c.push e hlt).cap := by
        show (c.buf ++ [e]).length + l.length ≤ c.cap
        rw [List.length_append, List.length_singleton]; omega
      obtain ⟨h1, h2, h3, h4, h5⟩ := ih (c.push e hlt) ho hlen
      refine ⟨?_, h2, h3, h4, h5⟩
      rw [h1, sent_push, List.append_assoc, List.singleton_append]

end Chan
