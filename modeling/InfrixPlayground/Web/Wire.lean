import InfrixPlayground.Lib.EventStream
import InfrixPlayground.Lib.JsValue
import InfrixPlayground.Lib.JsonText
import InfrixPlayground.Web.Pacing

/-!
# `Web.Wire` — the events of a run on the wire

`handleRunEvents` writes each event it receives as one frame of a `text/event-stream`, its data the event's
JSON. The browser reads the frames back however the text is cut on its way, and `onmessage` parses their
data. What the page gets from a stream that breaks off anywhere is the frames that were complete:
`stream_comes_back`.
-/

namespace InfrixPlayground
namespace Api

open Worker

/-! ## What the server writes -/

/-- `type StepStatus string`. -/
def statusName : StepStatus → String
  | .unset => ""
  | .running => "running"
  | .complete => "complete"
  | .failed => "failed"

/-- A text field. -/
def jsonText (s : String) : Option Json := some (.str s)

/-- A text field with `omitempty`. -/
def jsonOmitEmpty (s : String) : Option Json := if s = "" then none else some (.str s)

/-- A `Step`, by its tags. -/
def stepJson (s : Step) : Json :=
  .struct
    [ ("key", jsonText s.key), ("label", jsonText s.label), ("status", jsonText (statusName s.status)),
      ("hash", jsonOmitEmpty s.hash) ]

/-- An `Event` with all its fields, by their tags. -/
def eventJson (type state : String) (step : Option Step) (receiptID error : String) : Json :=
  .struct
    [ ("type", jsonText type), ("state", jsonOmitEmpty state), ("step", step.map stepJson),
      ("receiptId", jsonOmitEmpty receiptID), ("error", jsonOmitEmpty error) ]

/-- The `Event`s that a run publishes. -/
def Event.json : Event → Json
  | .state next => eventJson "state" next.name none "" ""
  | .step s => eventJson "step" "" (some s) "" ""
  | .done receiptID => eventJson "done" RunState.complete.name none receiptID ""
  | .error msg => eventJson "error" RunState.failed.name none "" msg

/-- `json.Marshal(e)`. -/
def Event.text (e : Event) : List Char := Json.goCompact.write 0 e.json

/-- What `handleRunEvents` writes for the events it receives, in order. -/
def streamText (history : List Event) : List Char := history.flatMap fun e => EventStream.frame e.text

theorem streamText_append (history more : List Event) :
    streamText (history ++ more) = streamText history ++ streamText more :=
  List.flatMap_append ..

end Api

namespace Web

open Api Worker EventStream

/-! ## What the page reads -/

/-- A text property; of the events of a run, no other is read. -/
def textOf : Js.Value → Option String
  | some (.str s) => some s
  | _ => none

/-- `st.status`, which is only compared with one text. -/
def readStatus : Option String → StepStatus
  | some "running" => .running
  | some "complete" => .complete
  | some "failed" => .failed
  | _ => .unset

/-- `e.step`. -/
def readStep (v : Json) : Step :=
  { key := (textOf (Js.prop "key" v)).getD ""
    label := (textOf (Js.prop "label" v)).getD ""
    status := readStatus (textOf (Js.prop "status" v))
    hash := (textOf (Js.prop "hash" v)).getD "" }

/-- What the loop reads of a value it is handed; a falsy one is `none`. -/
def readFrame (v : Json) : Option Frame :=
  if Js.truthy (some v) then
    some
      { type := (textOf (Js.prop "type" v)).getD ""
        state := textOf (Js.prop "state" v)
        step := ((Js.prop "step" v).filter fun st => Js.truthy (some st)).map readStep
        receiptId := textOf (Js.prop "receiptId" v)
        error := textOf (Js.prop "error" v) }
  else none

/-- `src.onmessage`. -/
def onmessage (msg : Message) : Happening := .message ((Json.parse msg.data).map readFrame)

/-- What the messages of a stream do to the page, which listens to those of one type. -/
def dispatched (msgs : List Message) : List Happening :=
  (msgs.filter fun msg => msg.type == "message").map onmessage

/-- The message of an event. -/
def messageOf (e : Event) : Message := EventStream.message e.text

/-! ## An event comes back -/

theorem textOf_text (s : String) : textOf ((jsonText s).map Json.inOrder) = some s := rfl

theorem textOf_omitEmpty (s : String) : textOf ((jsonOmitEmpty s).map Json.inOrder) = omitEmpty s := by
  unfold jsonOmitEmpty omitEmpty
  split <;> rfl

theorem getD_omitEmpty (s : String) : (omitEmpty s).getD "" = s := by
  unfold omitEmpty
  split
  · rename_i h; exact h.symm
  · rfl

theorem readStatus_name (status : StepStatus) : readStatus (some (statusName status)) = status := by
  cases status <;> rfl

/-- A step is an object, with these members. -/
theorem inOrder_stepJson (s : Step) : ∃ ms, Json.inOrder (stepJson s) = .obj ms ∧
    readStep (.obj ms) = s := by
  obtain ⟨ms, hms, hget⟩ := Json.get_struct [ ("key", jsonText s.key), ("label", jsonText s.label),
    ("status", jsonText (statusName s.status)), ("hash", jsonOmitEmpty s.hash) ] (by simp)
  have hkey := hget "key" (jsonText s.key) (by simp)
  have hlabel := hget "label" (jsonText s.label) (by simp)
  have hstatus := hget "status" (jsonText (statusName s.status)) (by simp)
  have hhash := hget "hash" (jsonOmitEmpty s.hash) (by simp)
  refine ⟨ms, hms, ?_⟩
  unfold readStep Js.prop
  simp only [hkey, hlabel, hstatus, hhash, textOf_text, textOf_omitEmpty, getD_omitEmpty, Option.getD_some,
    readStatus_name]

theorem truthy_obj (ms : List (String × Json)) : Js.truthy (some (.obj ms)) = true := rfl

theorem readStep_field (step : Option Step) :
    (((step.map stepJson).map Json.inOrder).filter fun st => Js.truthy (some st)).map readStep = step := by
  cases step with
  | none => rfl
  | some s =>
      obtain ⟨ms, hms, hread⟩ := inOrder_stepJson s
      rw [Option.map_some, Option.map_some, hms, Option.filter_some, if_pos (truthy_obj ms), Option.map_some, hread]

/-- The fields of an event, as the loop reads them. -/
theorem readFrame_eventJson (type state : String) (step : Option Step) (receiptID error : String) :
    readFrame (Json.inOrder (eventJson type state step receiptID error))
      = some
          { type, state := omitEmpty state, step, receiptId := omitEmpty receiptID, error := omitEmpty error } := by
  obtain ⟨ms, hms, hget⟩ := Json.get_struct [ ("type", jsonText type), ("state", jsonOmitEmpty state),
    ("step", step.map stepJson), ("receiptId", jsonOmitEmpty receiptID), ("error", jsonOmitEmpty error) ]
    (by simp)
  have htype := hget "type" (jsonText type) (by simp)
  have hstate := hget "state" (jsonOmitEmpty state) (by simp)
  have hstep := hget "step" (step.map stepJson) (by simp)
  have hid := hget "receiptId" (jsonOmitEmpty receiptID) (by simp)
  have herror := hget "error" (jsonOmitEmpty error) (by simp)
  rw [eventJson, hms, readFrame, if_pos (truthy_obj ms)]
  unfold Js.prop
  simp only [htype, hstate, hstep, hid, herror, textOf_text, textOf_omitEmpty, Option.getD_some, readStep_field]

theorem readFrame_json (e : Event) : readFrame (Json.inOrder e.json) = some (frameOf e) := by
  cases e with
  | state next => cases next <;> exact readFrame_eventJson ..
  | step s => exact readFrame_eventJson ..
  | done receiptID => exact readFrame_eventJson ..
  | error msg => exact readFrame_eventJson ..

/-- **An event comes back** as the frame the page makes of it. -/
theorem onmessage_messageOf (e : Event) : onmessage (messageOf e) = .message (some (some (frameOf e))) := by
  show Happening.message ((Json.parse (Json.goCompact.write 0 e.json)).map readFrame) = _
  rw [Json.Style.parse_write, Option.map_some, readFrame_json]

/-- The data of an event is one line. -/
theorem oneLine_text (e : Event) : OneLine e.text := by
  intro c hc
  have hprint : Json.Printable c := Json.printable_goCompact e.json 0 c hc
  constructor
  · rintro rfl; exact absurd hprint (by decide)
  · rintro rfl; exact absurd hprint (by decide)

/-! ## A stream comes back -/

/-- The frames of a history, as the page is handed them. -/
def happenings (history : List Event) : List Happening :=
  (frames history).map fun e => .message (some (some e))

theorem dispatched_messages (history : List Event) :
    dispatched (history.map messageOf) = happenings history := by
  have hall : (history.map messageOf).filter (fun msg => msg.type == "message") = history.map messageOf :=
    List.filter_eq_self.mpr fun msg hmsg => by
      obtain ⟨e, _, rfl⟩ := List.mem_map.mp hmsg
      rfl
  rw [dispatched, hall, happenings, frames, List.map_map, List.map_map]
  exact List.map_congr_left fun e _ => onmessage_messageOf e

theorem streamText_eq (history : List Event) :
    streamText history = (history.map Event.text).flatMap frame := by
  rw [streamText, List.flatMap_map]

/-- The messages of a stream that breaks off are those of the events whose frames are complete. -/
theorem messages_cut {history : List Event} {cs : List Char} (h : cs <+: streamText history) :
    ∃ k ≤ history.length, (Parser.start.run cs).2 = (history.take k).map messageOf ∧
      streamText (history.take k) <+: cs ∧
      (k < history.length → cs.length < (streamText (history.take (k + 1))).length) := by
  have hlines : ∀ data ∈ history.map Event.text, OneLine data := fun data hdata => by
    obtain ⟨e, _, rfl⟩ := List.mem_map.mp hdata
    exact oneLine_text e
  rw [streamText_eq] at h
  obtain ⟨k, hk, hmsgs, hle, hlt⟩ := Parser.run_cut hlines Parser.idle_start h
  rw [List.length_map] at hk hlt
  refine ⟨k, hk, ?_, ?_, fun hk' => ?_⟩
  · rw [hmsgs, ← List.map_take, List.map_map]
    rfl
  · rw [streamText_eq, List.map_take]
    exact hle
  · rw [streamText_eq, List.map_take]
    exact hlt hk'

/-! ## A frame tells its event -/

theorem omitEmpty_injective : Function.Injective omitEmpty := by
  intro s s' h
  rw [← getD_omitEmpty s, h, getD_omitEmpty s']

theorem name_injective : Function.Injective RunState.name := by
  intro s s' h
  cases s <;> cases s' <;> first | rfl | exact absurd h (by decide)

theorem frameOf_injective : Function.Injective frameOf := by
  intro e e' h
  have htype := congrArg Frame.type h
  cases e with
  | state next =>
      cases e' with
      | state next' => exact congrArg Event.state (name_injective (Option.some.inj (congrArg Frame.state h)))
      | _ => simp [frameOf] at htype
  | step s =>
      cases e' with
      | step s' => exact congrArg Event.step (Option.some.inj (congrArg Frame.step h))
      | _ => simp [frameOf] at htype
  | done receiptID =>
      cases e' with
      | done receiptID' => exact congrArg Event.done (omitEmpty_injective (congrArg Frame.receiptId h))
      | _ => simp [frameOf] at htype
  | error msg =>
      cases e' with
      | error msg' => exact congrArg Event.error (omitEmpty_injective (congrArg Frame.error h))
      | _ => simp [frameOf] at htype

theorem happenings_injective : Function.Injective happenings := by
  intro history history' h
  have hframe : Function.Injective fun e : Frame => Happening.message (some (some e)) := by
    intro e e' he
    cases he
    rfl
  exact (List.map_injective_iff.mpr frameOf_injective) (List.map_injective_iff.mpr hframe h)

/-- **A stream comes back, cut wherever it may be.** The server writes the events of a history, and the
    connection breaks after any of its characters: the page is handed exactly the frames of the events that
    were complete by then, in order, each once; and they are the frames of no other history. -/
theorem stream_comes_back (history : List Event) {cs : List Char} (h : cs <+: streamText history) :
    ∃ k ≤ history.length, (∀ events, dispatched (Parser.start.run cs).2 = happenings events ↔
        events = history.take k) ∧
      streamText (history.take k) <+: cs ∧
      (k < history.length → cs.length < (streamText (history.take (k + 1))).length) := by
  obtain ⟨k, hk, hmsgs, hle, hlt⟩ := messages_cut h
  refine ⟨k, hk, fun events => ?_, hle, hlt⟩
  rw [hmsgs, dispatched_messages, happenings_injective.eq_iff, eq_comm]

/-- A run that completes, with one of its stages. -/
def sampleHistory : List Event :=
  [.state .running, .step { key := "intent", label := "Intent", status := .complete, hash := "0a1b" },
    .state .complete, .done "a1b2"]

/-- A connection that breaks within its last event. -/
theorem stream_comes_back_sample :
    dispatched (Parser.start.run ((streamText sampleHistory).take 210)).2 = happenings (sampleHistory.take 3) := by
  obtain ⟨k, hk, hback, hle, hlt⟩ := stream_comes_back sampleHistory (List.take_prefix 210 _)
  have hlen := hle.length_le
  have hcut : ((streamText sampleHistory).take 210).length = 210 := by decide +kernel
  have hshort : ∀ k < 4, (streamText (sampleHistory.take k)).length ≤ 210 := by decide +kernel
  have hlong : 210 < (streamText (sampleHistory.take 4)).length := by decide +kernel
  have htotal : sampleHistory.length = 4 := rfl
  rw [hcut] at hlen hlt
  rw [htotal] at hk hlt
  have hk3 : k = 3 := by
    by_contra hne
    rcases Nat.lt_or_ge k 3 with h | h
    · exact absurd (hlt (by omega)) (Nat.not_lt.mpr (hshort (k + 1) (by omega)))
    · have h4 : k = 4 := by omega
      rw [h4] at hlen
      exact absurd hlen (Nat.not_le.mpr hlong)
  rw [← hk3]
  exact (hback _).mpr rfl

end Web
end InfrixPlayground
