import Mathlib.Data.List.Infix
import Mathlib.Tactic.Common

/-!
# `Lib.EventStream` — the format of server-sent events

The reader that an `EventSource` runs over the text of its stream, character by character, so that it does
not matter how the text was cut on its way: lines end with a line feed, a carriage return or both, a blank
line dispatches what the `data` fields before it said, and what is incomplete when the stream stops is
dropped. `frame` is one event as a server writes it. A stream of frames is read frame by frame
(`run_frames`), and one that breaks off as the frames that were complete (`run_cut`).
-/

namespace EventStream

/-- A message, as it is dispatched. -/
structure Message where
  type : String
  data : List Char
deriving DecidableEq

/-- Where the reader stands: whether the stream has just begun, whether the last character was a carriage
    return, the line so far, and the buffers for the data and the type of the event. -/
structure Parser where
  fresh : Bool
  afterCR : Bool
  line : List Char
  data : List Char
  eventType : List Char

namespace Parser

/-- The reader of a new stream. -/
def start : Parser := { fresh := true, afterCR := false, line := [], data := [], eventType := [] }

/-- A field of the event; those that say something about reconnecting are not kept. -/
def field (p : Parser) (name value : List Char) : Parser :=
  if name = "data".toList then { p with data := p.data ++ value ++ ['\n'] }
  else if name = "event".toList then { p with eventType := value }
  else p

/-- What follows a colon, without one space. -/
def fieldValue : List Char → List Char
  | ' ' :: cs => cs
  | cs => cs

/-- A blank line: the event, if there is data for one. -/
def dispatch (p : Parser) : Parser × Option Message :=
  ({ p with data := [], eventType := [] },
    if p.data = [] then none
    else some
      { type := if p.eventType = [] then "message" else String.ofList p.eventType
        data := p.data.dropLast })

/-- The end of a line. -/
def endLine (p : Parser) : Parser × Option Message :=
  match p.line with
  | [] => p.dispatch
  | line =>
    if line.head? = some ':' then ({ p with line := [] }, none)
    else if ':' ∈ line then
      ({ p with line := [] }.field (line.takeWhile (· != ':'))
        (fieldValue ((line.dropWhile (· != ':')).drop 1)), none)
    else ({ p with line := [] }.field line [], none)

/-- The next character of the stream. -/
def feed (p : Parser) (c : Char) : Parser × Option Message :=
  if p.fresh ∧ c = '\uFEFF' then ({ p with fresh := false }, none)
  else if c = '\n' ∧ p.afterCR then ({ p with fresh := false, afterCR := false }, none)
  else if c = '\n' ∨ c = '\r' then
    ({ p.endLine.1 with fresh := false, afterCR := c = '\r' }, p.endLine.2)
  else ({ p with fresh := false, afterCR := false, line := p.line ++ [c] }, none)

/-- A stretch of the stream, and the messages it completes. -/
def run (p : Parser) : List Char → Parser × List Message
  | [] => (p, [])
  | c :: cs => (((p.feed c).1.run cs).1, (p.feed c).2.toList ++ ((p.feed c).1.run cs).2)

theorem run_append (p : Parser) (cs ds : List Char) :
    p.run (cs ++ ds) = (((p.run cs).1.run ds).1, (p.run cs).2 ++ ((p.run cs).1.run ds).2) := by
  induction cs generalizing p with
  | nil => rfl
  | cons c cs ih => simp only [List.cons_append, run, ih, List.append_assoc]

theorem run_concat (p : Parser) (cs : List Char) (c : Char) :
    p.run (cs ++ [c]) = (((p.run cs).1.feed c).1, (p.run cs).2 ++ ((p.run cs).1.feed c).2.toList) := by
  rw [run_append]
  simp only [run, List.append_nil]

end Parser

/-! ## Frames -/

/-- One event as a server writes it. -/
def frame (data : List Char) : List Char := "data: ".toList ++ (data ++ ['\n', '\n'])

/-- The message it stands for. -/
def message (data : List Char) : Message := { type := "message", data }

/-- A text without line breaks. -/
def OneLine (data : List Char) : Prop := ∀ c ∈ data, c ≠ '\n' ∧ c ≠ '\r'

namespace Parser

/-- Between two events. -/
structure Idle (p : Parser) : Prop where
  afterCR : p.afterCR = false
  line : p.line = []
  data : p.data = []
  eventType : p.eventType = []

theorem idle_start : Idle start := ⟨rfl, rfl, rfl, rfl⟩

/-- A character that ends no line. -/
theorem feed_char {p : Parser} {c : Char} (hc : c ≠ '\n' ∧ c ≠ '\r') (hf : p.fresh = false) :
    p.feed c = ({ p with afterCR := false, line := p.line ++ [c] }, none) := by
  simp [feed, hc.1, hc.2, hf]

theorem run_chars {p : Parser} (hf : p.fresh = false) (ha : p.afterCR = false) : ∀ {cs : List Char},
    OneLine cs → p.run cs = ({ p with line := p.line ++ cs }, []) := by
  intro cs
  induction cs generalizing p with
  | nil => intro _; rw [run, List.append_nil]
  | cons c cs ih =>
      intro h
      obtain ⟨hc, hcs⟩ := List.forall_mem_cons.mp h
      rw [run, feed_char hc hf]
      simp only [ih (p := { p with afterCR := false, line := p.line ++ [c] }) hf rfl hcs, Option.toList_none,
        List.nil_append, List.append_assoc, List.singleton_append, ha]

/-- The line of a frame, up to its end. -/
theorem run_dataLine {p : Parser} (hp : p.Idle) {data : List Char} (h : OneLine data) :
    p.run ("data: ".toList ++ data) =
      ({ p with fresh := false, line := "data: ".toList ++ data }, []) := by
  have hd : p.feed 'd' = ({ p with fresh := false, afterCR := false, line := ['d'] }, none) := by
    simp [feed, hp.line]
  have hrest : OneLine ("ata: ".toList ++ data) :=
    List.forall_mem_append.mpr ⟨by simp, h⟩
  show p.run ('d' :: ("ata: ".toList ++ data)) = _
  rw [run, hd]
  simp only [run_chars (p := { p with fresh := false, afterCR := false, line := ['d'] }) rfl rfl hrest,
    Option.toList_none, List.nil_append]
  rw [hp.afterCR]
  rfl

/-- The first of the two line feeds keeps the data, the second dispatches it. -/
theorem run_breaks {p : Parser} (hp : p.Idle) (data : List Char) :
    ({ p with fresh := false, line := "data: ".toList ++ data } : Parser).feed '\n'
      = ({ p with fresh := false, line := [], data := data ++ ['\n'] }, none) ∧
    ({ p with fresh := false, line := [], data := data ++ ['\n'] } : Parser).feed '\n'
      = ({ p with fresh := false }, some (message data)) := by
  obtain ⟨fresh, afterCR, line, data', eventType⟩ := p
  obtain ⟨rfl, rfl, rfl, rfl⟩ := hp
  constructor
  · simp [feed, endLine, field, fieldValue, List.takeWhile, List.dropWhile]
  · simp [feed, endLine, dispatch, message]

/-- **A frame is one message**, and the reader is between two events again. -/
theorem run_frame {p : Parser} (hp : p.Idle) {data : List Char} (h : OneLine data) :
    p.run (frame data) = ({ p with fresh := false }, [message data]) := by
  obtain ⟨h1, h2⟩ := run_breaks hp data
  rw [frame, ← List.append_assoc, run_append, run_dataLine hp h]
  simp only [run, h1, h2, Option.toList_none, Option.toList_some, List.nil_append, List.append_nil]

/-- A frame that is not complete says nothing. -/
theorem run_incomplete {p : Parser} (hp : p.Idle) {data cs : List Char} (h : OneLine data)
    (hcs : cs <+: frame data) (hne : cs ≠ frame data) : (p.run cs).2 = [] := by
  have hframe : frame data = ("data: ".toList ++ data ++ ['\n']) ++ ['\n'] := by simp [frame]
  rw [hframe] at hcs hne
  -- short of the last line feed, and up to there there is no message
  rcases List.prefix_concat_iff.mp hcs with heq | hcs
  · exact absurd heq hne
  · obtain ⟨rest, hrest⟩ := hcs
    have hnone : (p.run ("data: ".toList ++ data ++ ['\n'])).2 = [] := by
      rw [run_append, run_dataLine hp h]
      simp only [run, (run_breaks hp data).1, Option.toList_none, List.nil_append]
    rw [← hrest, run_append] at hnone
    exact (List.append_eq_nil_iff.mp hnone).1

/-- **A stream of frames that breaks off** is read as the frames that were complete. -/
theorem run_cut : ∀ {datas : List (List Char)}, (∀ data ∈ datas, OneLine data) → ∀ {p : Parser}, p.Idle →
    ∀ {cs : List Char}, cs <+: datas.flatMap frame →
      ∃ k ≤ datas.length, (p.run cs).2 = (datas.take k).map message ∧ (datas.take k).flatMap frame <+: cs ∧
        (k < datas.length → cs.length < ((datas.take (k + 1)).flatMap frame).length) := by
  intro datas
  induction datas with
  | nil =>
      intro _ p hp cs hcs
      rw [List.prefix_nil.mp hcs]
      exact ⟨0, le_rfl, rfl, List.nil_prefix, fun h => absurd h (lt_irrefl 0)⟩
  | cons data datas ih =>
      intro h p hp cs hcs
      obtain ⟨hdata, hdatas⟩ := List.forall_mem_cons.mp h
      rw [List.flatMap_cons] at hcs
      by_cases hlt : cs.length < (frame data).length
      · -- short of the first frame
        have hcs' : cs <+: frame data :=
          List.prefix_of_prefix_length_le hcs (List.prefix_append (frame data) _) hlt.le
        have hne : cs ≠ frame data := fun heq => absurd (congrArg List.length heq) hlt.ne
        exact ⟨0, Nat.zero_le _, run_incomplete hp hdata hcs' hne, List.nil_prefix, fun _ => by simpa using hlt⟩
      · -- the first frame is complete, so the rest is the beginning of the others
        obtain ⟨rest, rfl⟩ :=
          List.prefix_of_prefix_length_le (List.prefix_append (frame data) _) hcs (Nat.le_of_not_lt hlt)
        obtain ⟨k, hk, hmsgs, hle, hlt⟩ := ih hdatas (p := { p with fresh := false })
          ⟨hp.afterCR, hp.line, hp.data, hp.eventType⟩ ((List.prefix_append_right_inj _).mp hcs)
        refine ⟨k + 1, Nat.succ_le_succ hk, ?_, ?_, fun hk' => ?_⟩
        · rw [run_append, run_frame hp hdata]
          exact congrArg (message data :: ·) hmsgs
        · exact (List.prefix_append_right_inj _).mpr hle
        · have := hlt (Nat.lt_of_succ_lt_succ hk')
          rw [List.take_succ_cons, List.flatMap_cons, List.length_append, List.length_append]
          omega

end Parser

end EventStream
