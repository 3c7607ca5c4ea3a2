import InfrixPlayground.Api.Assurance
import InfrixPlayground.Api.Delivery
import InfrixPlayground.Api.Snapshots
import InfrixPlayground.Web.Wire

/-!
# `Web.Visit` — the page of a run and its server, end to end

One machine for all that lies between a run and what its visitor is told: the server with its runs, the
handler of the visitor's event stream, the connection that text crosses character by character and that may
break at any moment, the `EventSource` that reconnects after that, and the paced consumer of the page.
`Sound` is what holds of it however these interleave: what has arrived at the page is a beginning of the run's
history, in order, up to an error.
-/

namespace InfrixPlayground
namespace Web

open Api Worker Machine EventStream

variable {X : Externals}

/-! ## The machine -/

/-- An open connection: the channel that its handler reads, what has been written and has not arrived, and
    the browser's reader. -/
structure Connection where
  sub : Nat
  text : List Char
  parser : Parser

/-- The `EventSource`, by its `readyState`. -/
inductive EventSource where
  | connecting
  | opened (c : Connection)
  | closed

/-- A visit: the server's manager, the page's stream and its theater. -/
structure Visit (X : Externals) where
  manager : RunManager X
  source : EventSource
  stage : Stage

/-- What happens next. -/
inductive VisitAction where
  /-- The server does something, on whosever behalf. -/
  | server (a : ManagerAction)
  /-- `handleRunEvents` finds the run and subscribes. -/
  | connect
  /-- It receives an event and writes its frame. -/
  | write
  /-- The next character arrives. -/
  | arrive
  /-- Its channel is closed and drained, and all it has written has arrived: the stream ends, and the browser
      reconnects. -/
  | ended
  /-- The connection breaks; what was on its way is lost, and the browser reconnects. -/
  | hangup
  /-- An attempt to connect fails. -/
  | retry
  /-- An attempt to connect is answered with something else than a stream: the browser gives up. -/
  | refuse
  /-- The consumer's promise settles. -/
  | resume

/-- The connection breaks, or there is none to be had. -/
def VisitAction.Breaks : VisitAction → Bool
  | .hangup | .retry | .refuse => true
  | _ => false

/-- Nobody but the handler of a connection takes from its channel or gives it up. -/
def EventSource.owns (id : String) : EventSource → ManagerAction → Bool
  | .opened c, .run id' (.recv i) => id' == id && i == c.sub
  | .opened c, .run id' (.unsub i) => id' == id && i == c.sub
  | _, _ => false

/-- What a receive from a channel gives. -/
def head (m : RunManager X) (id : String) (i : Nat) : Option Event :=
  (m.runs.lookup id).bind fun t => (t.run.subs[i]?).bind fun s => s.chan.buf.head?

/-- A receive from a channel finds it closed. -/
def drained (m : RunManager X) (id : String) (i : Nat) : Bool :=
  ((m.runs.lookup id).bind fun t => t.run.subs[i]?).any fun s => s.chan.closed && s.chan.buf.isEmpty

namespace Visit

/-- The page opens its stream. -/
def start (m : RunManager X) : Visit X := { manager := m, source := .connecting, stage := .start }

/-- The stream reports an error. -/
def onerror (th : Theater) (v : Visit X) (source : EventSource) : Option (Visit X) :=
  (v.stage.step th .error).map fun stage => { v with source, stage }

/-- One step of the visit of the run `id`. -/
def step (th : Theater) (id : String) (v : Visit X) : VisitAction → Option (Visit X)
  | .server a =>
    if v.source.owns id a then none else (v.manager.step a).map fun m => { v with manager := m }
  | .connect =>
    match v.source, v.manager.runs.lookup id with
    | .connecting, some t => (v.manager.step (.run id .subscribe)).map fun m =>
        { v with manager := m, source := .opened { sub := t.run.subs.length, text := [], parser := .start } }
    | _, _ => none
  | .write =>
    match v.source with
    | .opened c =>
      match head v.manager id c.sub with
      | some e => (v.manager.step (.run id (.recv c.sub))).map fun m =>
          { v with manager := m, source := .opened { c with text := c.text ++ frame e.text } }
      | none => none
    | _ => none
  | .arrive =>
    match v.source with
    | .opened { sub, text := ch :: text, parser } =>
      (exec (Stage.step th) v.stage (dispatched (parser.feed ch).2.toList)).map fun stage =>
        { v with source := .opened { sub, text, parser := (parser.feed ch).1 }, stage }
    | _ => none
  | .ended =>
    match v.source with
    | .opened c => if c.text = [] ∧ drained v.manager id c.sub then v.onerror th .connecting else none
    | _ => none
  | .hangup =>
    match v.source with
    | .opened _ => v.onerror th .connecting
    | _ => none
  | .retry =>
    match v.source with
    | .connecting => v.onerror th .connecting
    | _ => none
  | .refuse =>
    match v.source with
    | .connecting => v.onerror th .closed
    | _ => none
  | .resume => (v.stage.resume th).map fun stage =>
      { v with stage, source := if stage.terminated then .closed else v.source }

/-- The stream of an open connection is at its end. -/
def AtEnd (id : String) (v : Visit X) : Prop :=
  ∃ c t s, v.source = .opened c ∧ c.text = [] ∧ v.manager.runs.lookup id = some t ∧
    t.run.subs[c.sub]? = some s ∧ s.chan.closed = true ∧ s.chan.buf = []

end Visit

/-- What a step can do. -/
inductive VisitStep (th : Theater) (id : String) (v : Visit X) : VisitAction → Visit X → Prop where
  | server {a : ManagerAction} {m : RunManager X} (howns : v.source.owns id a = false)
      (hs : ManagerStep v.manager a m) : VisitStep th id v (.server a) { v with manager := m }
  | connect {t : Task X} {m : RunManager X} (hc : v.source = .connecting)
      (hl : v.manager.runs.lookup id = some t) (hs : ManagerStep v.manager (.run id .subscribe) m) :
      VisitStep th id v .connect
        { v with manager := m, source := .opened { sub := t.run.subs.length, text := [], parser := .start } }
  | write {c : Connection} {t : Task X} {s : Sub} {e : Event} {rest : List Event} {m : RunManager X}
      (hc : v.source = .opened c) (hl : v.manager.runs.lookup id = some t)
      (hsub : t.run.subs[c.sub]? = some s) (hbuf : s.chan.buf = e :: rest)
      (hs : ManagerStep v.manager (.run id (.recv c.sub)) m) :
      VisitStep th id v .write
        { v with manager := m, source := .opened { c with text := c.text ++ frame e.text } }
  | arrive {c : Connection} {ch : Char} {text : List Char} {stage : Stage} (hc : v.source = .opened c)
      (htext : c.text = ch :: text)
      (hs : exec (Stage.step th) v.stage (dispatched (c.parser.feed ch).2.toList) = some stage) :
      VisitStep th id v .arrive
        { v with source := .opened { c with text, parser := (c.parser.feed ch).1 }, stage }
  | lost {a : VisitAction} {source : EventSource} {stage : Stage} (ha : a.Breaks = true ∨ v.AtEnd id)
      (hclosed : v.source ≠ .closed) (hopened : ∀ c, source ≠ .opened c)
      (hs : v.stage.step th .error = some stage) : VisitStep th id v a { v with source, stage }
  | resume {stage : Stage} (hs : v.stage.resume th = some stage) :
      VisitStep th id v .resume
        { v with stage, source := if stage.terminated then .closed else v.source }

/-- What the head of a channel is. -/
theorem head_eq_some {m : RunManager X} {id : String} {i : Nat} {e : Event} (h : head m id i = some e) :
    ∃ t s rest, m.runs.lookup id = some t ∧ t.run.subs[i]? = some s ∧ s.chan.buf = e :: rest := by
  obtain ⟨t, hl, h⟩ := Option.bind_eq_some_iff.mp h
  obtain ⟨s, hs, h⟩ := Option.bind_eq_some_iff.mp h
  obtain ⟨rest, hrest⟩ := List.head?_eq_some_iff.mp h
  exact ⟨t, s, rest, hl, hs, hrest⟩

theorem drained_iff {m : RunManager X} {id : String} {i : Nat} : drained m id i = true ↔
    ∃ t s, m.runs.lookup id = some t ∧ t.run.subs[i]? = some s ∧ s.chan.closed = true ∧ s.chan.buf = [] := by
  rw [drained, Option.any_eq_true]
  constructor
  · rintro ⟨s, hs, hend⟩
    obtain ⟨t, hl, hsub⟩ := Option.bind_eq_some_iff.mp hs
    obtain ⟨hclosed, hbuf⟩ := Bool.and_eq_true_iff.mp hend
    exact ⟨t, s, hl, hsub, hclosed, List.isEmpty_iff.mp hbuf⟩
  · rintro ⟨t, s, hl, hsub, hclosed, hbuf⟩
    exact ⟨s, Option.bind_eq_some_iff.mpr ⟨t, hl, hsub⟩, by rw [hclosed, hbuf]; rfl⟩

theorem visit_step {th : Theater} {id : String} {v v' : Visit X} {a : VisitAction}
    (h : v.step th id a = some v') : VisitStep th id v a v' := by
  unfold Visit.step Visit.onerror at h
  cases a with
  | server a =>
      dsimp only at h
      split at h
      · cases h
      · rename_i howns
        obtain ⟨m, hm, rfl⟩ := Option.map_eq_some_iff.mp h
        exact .server (Bool.not_eq_true _ ▸ howns) (manager_step hm)
  | connect =>
      dsimp only at h
      split at h
      · rename_i t hc hl
        obtain ⟨m, hm, rfl⟩ := Option.map_eq_some_iff.mp h
        exact .connect hc hl (manager_step hm)
      · cases h
  | write =>
      dsimp only at h
      split at h
      · rename_i c hc
        split at h
        · rename_i e he
          obtain ⟨t, s, rest, hl, hs, hbuf⟩ := head_eq_some he
          obtain ⟨m, hm, rfl⟩ := Option.map_eq_some_iff.mp h
          exact .write hc hl hs hbuf (manager_step hm)
        · cases h
      · cases h
  | arrive =>
      dsimp only at h
      split at h
      · rename_i hc
        obtain ⟨stage, hs, rfl⟩ := Option.map_eq_some_iff.mp h
        exact .arrive hc rfl hs
      · cases h
  | ended =>
      dsimp only at h
      split at h
      · rename_i c hc
        split at h
        · rename_i hend
          obtain ⟨t, s, hl, hsub, hclosed, hbuf⟩ := drained_iff.mp hend.2
          obtain ⟨stage, hs, rfl⟩ := Option.map_eq_some_iff.mp h
          exact .lost (.inr ⟨c, t, s, hc, hend.1, hl, hsub, hclosed, hbuf⟩) (by rw [hc]; nofun) nofun hs
        · cases h
      · cases h
  | hangup =>
      dsimp only at h
      split at h
      · rename_i hc
        obtain ⟨stage, hs, rfl⟩ := Option.map_eq_some_iff.mp h
        exact .lost (.inl rfl) (by rw [hc]; nofun) nofun hs
      · cases h
  | retry =>
      dsimp only at h
      split at h
      · rename_i hc
        obtain ⟨stage, hs, rfl⟩ := Option.map_eq_some_iff.mp h
        exact .lost (.inl rfl) (by rw [hc]; nofun) nofun hs
      · cases h
  | refuse =>
      dsimp only at h
      split at h
      · rename_i hc
        obtain ⟨stage, hs, rfl⟩ := Option.map_eq_some_iff.mp h
        exact .lost (.inl rfl) (by rw [hc]; nofun) nofun hs
      · cases h
  | resume =>
      obtain ⟨stage, hs, rfl⟩ := Option.map_eq_some_iff.mp h
      exact .resume hs

/-! ## The server of a visit -/

/-- Every record of a run has an id. -/
structure Named (t : Task X) : Prop where
  persisting : ∀ rec, t.ctl = .persisting rec → rec.id ≠ ""
  put : ∀ rec, t.put = some rec → rec.id ≠ ""

theorem Named.step {rn : Runner X} {t t' : Task X} {a : RunAction} (h : Named t) (hs : TaskStep rn t a t') :
    Named t' := by
  cases hs with
  | @inserted result now rec hc hp =>
      exact ⟨fun rec' he => by cases he; exact prepare_id_ne_empty hp, h.put⟩
  | @returned rec hc =>
      refine ⟨fun rec' he => (by cases he), fun rec' he => ?_⟩
      cases he
      exact h.persisting rec hc
  | subscribe => exact ⟨h.persisting, h.put⟩
  | unsub => exact ⟨h.persisting, h.put⟩
  | recv => exact ⟨h.persisting, h.put⟩
  | _ => exact ⟨fun rec' he => (by cases he), h.put⟩

/-- What holds of a run at any moment of its server. -/
structure Served (rn : Runner X) (t : Task X) : Prop where
  delivers : Delivers t
  onCourse : t.OnCourse rn
  named : Named t

/-- What holds of the server. -/
structure Backed (rn : Runner X) (m : RunManager X) : Prop where
  registry : Registry m
  traces : Traces m
  stored : Stored m
  retained : AllRetained m
  runs : AllRuns rn (Served rn) m

theorem backed_new {C : RunCodec X} {os : Disk} {dir : String} {files : FilePath.Files C.Data}
    {store : ReceiptStore X} (h : newReceiptStore C os dir files = .ok store) (rn : Runner X) :
    Backed rn (newRunManager rn store) :=
  ⟨registry_new rn store, traces_new rn store, stored_new rn h,
    fun _ _ _ _ hlog => absurd hlog (by simp [newRunManager]), allRuns_new rn _ store⟩

theorem Backed.step {rn : Runner X} {m m' : RunManager X} {a : ManagerAction} (h : Backed rn m)
    (hs : ManagerStep m a m') : Backed rn m' :=
  ⟨h.registry.step hs, h.traces.step h.registry hs, h.stored.step hs, h.retained.step h.traces hs,
    h.runs.step
      (fun id mode flow => ⟨delivers_ofRun id mode flow, onCourse_ofRun rn id mode flow, nofun, nofun⟩)
      (fun hi hb => ⟨hi.delivers.step hb, hi.onCourse.step hb, hi.named.step hb⟩) hs⟩

/-- The history of a run, empty as long as there is no such run. -/
def historyOf (m : RunManager X) (id : String) : List Event := (m.runs.lookup id).elim [] fun t => t.run.history

theorem historyOf_eq {m : RunManager X} {id : String} {t : Task X} (hl : m.runs.lookup id = some t) :
    historyOf m id = t.run.history := by
  rw [historyOf, hl]; rfl

/-- **The server moves on**: the history of a run grows, and nothing is taken from its channels but by its own
    action. -/
theorem Backed.moves {rn : Runner X} {m m' : RunManager X} {a : ManagerAction} (h : Backed rn m)
    (hs : ManagerStep m a m') {id : String} {t : Task X} (hl : m.runs.lookup id = some t) :
    ∃ t', m'.runs.lookup id = some t' ∧ t.run.history <+: t'.run.history ∧
      ∀ i s, a ≠ .run id (.recv i) → t.run.subs[i]? = some s →
        ∃ s', t'.run.subs[i]? = some s' ∧ s.Continues s' := by
  obtain ⟨t', hl', rfl | ⟨b, rfl, hb⟩⟩ := hs.own h.registry hl
  · exact ⟨t', hl', List.prefix_rfl, fun i s _ hs => ⟨s, hs, .refl s⟩⟩
  · have hchannels := hb.channels (h.runs.runs id t hl).delivers.consistent
    exact ⟨t', hl', hchannels.history_prefix,
      fun i s ha hs => hchannels.continues hs fun he => ha (by rw [he])⟩

theorem Backed.history_prefix {rn : Runner X} {m m' : RunManager X} {a : ManagerAction} (h : Backed rn m)
    (hs : ManagerStep m a m') (id : String) : historyOf m id <+: historyOf m' id := by
  cases hl : m.runs.lookup id with
  | none => rw [historyOf, hl]; exact List.nil_prefix
  | some t =>
      obtain ⟨t', hl', hpre, _⟩ := h.moves hs hl
      rw [historyOf_eq hl, historyOf_eq hl']
      exact hpre

/-- A step of a registered run, and where to find it afterwards. -/
theorem ran {m m' : RunManager X} {id : String} {b : RunAction} (hs : ManagerStep m (.run id b) m') :
    ∃ t t', m.runs.lookup id = some t ∧ TaskStep m.runner t b t' ∧ m'.runs.lookup id = some t' := by
  cases hs with
  | run hl hp hb => exact ⟨_, _, hl, hb, AList.lookup_insert _⟩

/-! ## What has reached the page -/

/-- What is on a connection: the events taken from its channel were written, the characters that arrived have
    been read, and they completed the messages of these events. -/
def Connection.Carries (t : Task X) (c : Connection) (got : List Event) : Prop :=
  ∃ s cs, t.run.subs[c.sub]? = some s ∧ cs ++ c.text = streamText s.chan.taken ∧
    (Parser.start.run cs).1 = c.parser ∧ (Parser.start.run cs).2 = got.map Web.messageOf ∧ got <+: s.chan.taken

/-- Where the events of a run have got to, before anything broke. -/
def OnAir (m : RunManager X) (id : String) (got : List Event) : EventSource → Prop
  | .connecting => got = []
  | .opened c => ∃ t, m.runs.lookup id = some t ∧ c.Carries t got
  | .closed => True

/-- What has arrived at the page: a beginning of the history, and the rest only after an error, at which that
    beginning was as `ok` says. -/
def Visit.Heard (ok : List Event → Prop) (id : String) (v : Visit X) : Prop :=
  ∃ got, got <+: historyOf v.manager id ∧
    ((v.stage.arrived = (frames got).map some ∧ OnAir v.manager id got v.source) ∨
      ok got ∧ ∃ more, v.stage.arrived = (frames got).map some ++ some sseError :: more)

/-- **The invariant of a visit.** -/
structure Sound (rn : Runner X) (th : Theater) (id : String) (v : Visit X) : Prop where
  backed : Backed rn v.manager
  stage : v.stage.Faithful th
  closed : v.stage.terminated = true → v.source = .closed
  heard : v.Heard (fun _ => True) id

theorem heard_start (ok : List Event → Prop) (id : String) (m : RunManager X) : (Visit.start m).Heard ok id :=
  ⟨[], List.nil_prefix, .inl ⟨rfl, rfl⟩⟩

theorem sound_start {rn : Runner X} {m : RunManager X} (h : Backed rn m) (th : Theater) (id : String) :
    Sound rn th id (.start m) :=
  ⟨h, .start, nofun, heard_start _ id m⟩

/-- The server moves on, and the connection is as it was. -/
theorem OnAir.moves {rn : Runner X} {m m' : RunManager X} {a : ManagerAction} (hm : Backed rn m)
    (hs : ManagerStep m a m') {id : String} {got : List Event} {source : EventSource}
    (howns : source.owns id a = false) (h : OnAir m id got source) : OnAir m' id got source := by
  cases source with
  | connecting => exact h
  | closed => trivial
  | opened c =>
      obtain ⟨t, hl, s, cs, hsub, htext, hparser, hmsgs, hgot⟩ := h
      obtain ⟨t', hl', _, hchannels⟩ := hm.moves hs hl
      have hne : a ≠ .run id (.recv c.sub) := by
        rintro rfl
        simp [EventSource.owns] at howns
      obtain ⟨s', hsub', hcont⟩ := hchannels c.sub s hne hsub
      exact ⟨t', hl', s', cs, hsub', by rw [hcont.taken]; exact htext, hparser, hmsgs,
        by rw [hcont.taken]; exact hgot⟩

/-- What is taken from a channel is a beginning of the history. -/
theorem Served.taken_of_history {rn : Runner X} {t : Task X} (h : Served rn t) {i : Nat} {s : Sub}
    (hsub : t.run.subs[i]? = some s) : s.chan.taken <+: t.run.history :=
  (List.prefix_append s.chan.taken s.chan.buf).trans (h.delivers.carries s (List.mem_of_getElem? hsub))

/-- The next character of a connection. -/
theorem Connection.Carries.arrive {t : Task X} {c : Connection} {got : List Event} (h : c.Carries t got)
    {ch : Char} {text : List Char} (htext : c.text = ch :: text) :
    (c.parser.feed ch).2 = none ∧
        Connection.Carries t { c with text, parser := (c.parser.feed ch).1 } got ∨
      ∃ e, (c.parser.feed ch).2 = some (Web.messageOf e) ∧
        Connection.Carries t { c with text, parser := (c.parser.feed ch).1 } (got ++ [e]) := by
  obtain ⟨s, cs, hsub, hall, hparser, hmsgs, hgot⟩ := h
  rw [htext] at hall
  have hall' : (cs ++ [ch]) ++ text = streamText s.chan.taken := by simpa using hall
  obtain ⟨k, hk, hcut, _⟩ := messages_cut ⟨text, hall'⟩
  have hrun := Parser.run_concat Parser.start cs ch
  rw [hparser, hmsgs] at hrun
  have hfst := congrArg Prod.fst hrun
  have hsnd := congrArg Prod.snd hrun
  cases hmsg : (c.parser.feed ch).2 with
  | none =>
      rw [hmsg] at hsnd
      exact .inl ⟨rfl, s, cs ++ [ch], hsub, hall', hfst, by rw [hsnd]; exact List.append_nil _, hgot⟩
  | some msg =>
      rw [hmsg, hcut] at hsnd
      -- the messages are those of a beginning of what was taken, one event longer
      obtain ⟨got', last, htake, hgot', hlast⟩ := List.map_eq_append_iff.mp hsnd
      obtain ⟨e, rfl⟩ : ∃ e, last = [e] := by
        have := congrArg List.length hlast
        exact List.length_eq_one_iff.mp (by simpa using this)
      have htaken : got' ++ [e] <+: s.chan.taken := htake ▸ List.take_prefix k s.chan.taken
      have hsame : got' = got := by
        have hlen : got'.length = got.length := by simpa using congrArg List.length hgot'
        exact (List.prefix_of_prefix_length_le ((List.prefix_append got' [e]).trans htaken) hgot hlen.le).eq_of_length hlen
      subst hsame
      have hmsg' : Web.messageOf e = msg := by simpa using hlast
      refine .inr ⟨e, by rw [hmsg'], s, cs ++ [ch], hsub, hall', hfst, ?_, htaken⟩
      rw [hcut, htake]

/-! ## Every step keeps the invariant -/

/-- What an error does to the page. -/
theorem stage_error {th : Theater} {s s' : Stage} (h : s.step th .error = some s') (ht : s.terminated = false) :
    s' = s.push (some sseError) := by
  simp only [Stage.step, ht, Bool.false_eq_true, if_false, Option.some.injEq] at h
  exact h.symm

/-- No message ends the loop by itself. -/
theorem exec_dispatched {th : Theater} (msgs : List Message) {s s' : Stage}
    (h : exec (Stage.step th) s (dispatched msgs) = some s') : s'.terminated = s.terminated := by
  unfold dispatched at h
  generalize msgs.filter (fun msg => msg.type == "message") = heard at h
  induction heard generalizing s with
  | nil => cases h; rfl
  | cons msg heard ih =>
      obtain ⟨u, hu, hrest⟩ := exec_cons_iff.mp h
      rw [ih hrest]
      unfold onmessage at hu
      cases hdata : (Json.parse msg.data).map readFrame with
      | none => rw [hdata] at hu; cases hu; rfl
      | some x => rw [hdata] at hu; cases hu; exact Stage.push_terminated ..

/-- What the messages of events do to it. -/
theorem exec_happenings {th : Theater} : ∀ {history : List Event} {s s' : Stage},
    exec (Stage.step th) s (happenings history) = some s' →
      s'.arrived = s.arrived ++ (frames history).map some := by
  intro history
  induction history with
  | nil => intro s s' h; cases h; exact (List.append_nil _).symm
  | cons e history ih =>
      intro s s' h
      obtain ⟨u, hu, hrest⟩ := exec_cons_iff.mp h
      cases hu
      rw [ih hrest, Stage.push_arrived, List.append_assoc]
      rfl

theorem frames_append (history more : List Event) : frames (history ++ more) = frames history ++ frames more :=
  List.map_append

/-- What is on the air has arrived as far as it was read, and belongs to the history. -/
theorem Sound.carried {rn : Runner X} {th : Theater} {id : String} {v : Visit X} (h : Sound rn th id v)
    {t : Task X} (hl : v.manager.runs.lookup id = some t) {c : Connection} {got : List Event}
    (hc : c.Carries t got) : got <+: historyOf v.manager id := by
  obtain ⟨s, _, hsub, _, _, _, hgot⟩ := hc
  rw [historyOf_eq hl]
  exact hgot.trans ((h.backed.runs.runs id t hl).taken_of_history hsub)

/-- A character that arrives completes at most the next event. -/
theorem Connection.Carries.arrived {th : Theater} {t : Task X} {c : Connection} {got : List Event}
    (h : c.Carries t got) {ch : Char} {text : List Char} (htext : c.text = ch :: text) {s s' : Stage}
    (harr : s.arrived = (frames got).map some)
    (hs : exec (Stage.step th) s (dispatched (c.parser.feed ch).2.toList) = some s') :
    ∃ got', s'.arrived = (frames got').map some ∧
      Connection.Carries t { c with text, parser := (c.parser.feed ch).1 } got' := by
  rcases h.arrive htext with ⟨hnone, hc⟩ | ⟨e, hmsg, hc⟩
  · rw [hnone] at hs
    cases hs
    exact ⟨got, harr, hc⟩
  · rw [hmsg] at hs
    have hone : dispatched [Web.messageOf e] = happenings [e] := dispatched_messages [e]
    refine ⟨got ++ [e], ?_, hc⟩
    rw [exec_happenings (hone ▸ hs), harr, frames_append, List.map_append]

/-- A page whose stream is open listens. -/
theorem Sound.listens {rn : Runner X} {th : Theater} {id : String} {v : Visit X} (h : Sound rn th id v)
    (hopen : v.source ≠ .closed) : v.stage.terminated = false :=
  Bool.eq_false_iff.mpr fun ht => hopen (h.closed ht)

/-- **What has arrived**, after a step: one more event of the history at most, or an error. -/
theorem Visit.Heard.step {rn : Runner X} {th : Theater} {id : String} {v v' : Visit X} {a : VisitAction}
    {ok : List Event → Prop} (h : Sound rn th id v) (hheard : v.Heard ok id)
    (hlost : a.Breaks = true ∨ v.AtEnd id → ∀ got, OnAir v.manager id got v.source → ok got)
    (hs : VisitStep th id v a v') : v'.Heard ok id := by
  obtain ⟨got, hpre, hheard⟩ := hheard
  cases hs with
  | server howns hs =>
      refine ⟨got, hpre.trans (h.backed.history_prefix hs id), ?_⟩
      exact hheard.imp_left fun ⟨harr, hair⟩ => ⟨harr, hair.moves h.backed hs howns⟩
  | @connect t m hc hl hs =>
      refine ⟨got, hpre.trans (h.backed.history_prefix hs id), hheard.imp_left fun ⟨harr, hair⟩ => ⟨harr, ?_⟩⟩
      -- nothing has arrived, and nothing has been taken from the new channel
      rw [hc] at hair
      have hnone : got = [] := hair
      subst hnone
      obtain ⟨u, u', hl', hb, hu'⟩ := ran hs
      cases Option.some.inj (hl.symm.trans hl')
      cases hb
      obtain ⟨s, hsub, htaken, _⟩ := getElem?_subscribe t.run
      exact ⟨_, hu', s, [], hsub, by rw [htaken]; rfl, rfl, rfl, List.nil_prefix⟩
  | @write c t s e rest m hc hl hsub hbuf hs =>
      refine ⟨got, hpre.trans (h.backed.history_prefix hs id), hheard.imp_left fun ⟨harr, hair⟩ => ⟨harr, ?_⟩⟩
      rw [hc] at hair
      obtain ⟨u, hlu, s₀, cs, hsub₀, htext, hparser, hmsgs, hgot⟩ := hair
      cases Option.some.inj (hl.symm.trans hlu)
      cases Option.some.inj (hsub.symm.trans hsub₀)
      obtain ⟨u, u', hl', hb, hu'⟩ := ran hs
      cases Option.some.inj (hl.symm.trans hl')
      cases hb
      have htaken := Chan.taken_recv hbuf
      refine ⟨_, hu', _, cs, getElem?_recv hsub, ?_, hparser, hmsgs, ?_⟩
      · show cs ++ (c.text ++ frame e.text) = streamText s.chan.recv.taken
        rw [htaken, streamText_append, ← htext, List.append_assoc]
        simp [streamText]
      · show got <+: s.chan.recv.taken
        rw [htaken]
        exact hgot.trans (List.prefix_append ..)
  | @arrive c ch text stage hc htext hs =>
      rcases hheard with ⟨harr, hair⟩ | ⟨hok, more, harr⟩
      · rw [hc] at hair
        obtain ⟨t, hl, hcarries⟩ := hair
        obtain ⟨got', harr', hc'⟩ := hcarries.arrived htext harr hs
        exact ⟨got', h.carried hl hc', .inl ⟨harr', t, hl, hc'⟩⟩
      · obtain ⟨new, hnew⟩ := Stage.arrived_prefix hs
        refine ⟨got, hpre, .inr ⟨hok, more ++ new, ?_⟩⟩
        rw [← hnew, harr, List.append_assoc, List.cons_append]
  | @lost a source stage ha hclosed hopened hs =>
      rw [stage_error hs (h.listens hclosed)]
      refine ⟨got, hpre, .inr ?_⟩
      rcases hheard with ⟨harr, hair⟩ | ⟨hok, more, harr⟩
      · exact ⟨hlost ha got hair, [], by rw [Stage.push_arrived, harr]⟩
      · exact ⟨hok, more ++ [some sseError], by rw [Stage.push_arrived, harr, List.append_assoc]; rfl⟩
  | @resume stage hs =>
      refine ⟨got, hpre, ?_⟩
      show (stage.arrived = _ ∧ _) ∨ ok got ∧ ∃ more, stage.arrived = _
      rw [(Stage.todo_resume (Stage.resume_cases hs)).2]
      refine hheard.imp_left fun ⟨harr, hair⟩ => ⟨harr, ?_⟩
      show OnAir v.manager id got (if stage.terminated then .closed else v.source)
      split
      · trivial
      · exact hair

/-- **Every step of a visit keeps the invariant.** -/
theorem Sound.step {rn : Runner X} {th : Theater} {id : String} {v v' : Visit X} {a : VisitAction}
    (h : Sound rn th id v) (hs : VisitStep th id v a v') : Sound rn th id v' := by
  have hheard := h.heard.step h (fun _ _ _ => trivial) hs
  cases hs with
  | server howns hs => exact ⟨h.backed.step hs, h.stage, h.closed, hheard⟩
  | connect hc hl hs =>
      have ht := h.listens (by rw [hc]; nofun)
      exact ⟨h.backed.step hs, h.stage, fun hterm => absurd hterm (by rw [ht]; decide), hheard⟩
  | write hc hl hsub hbuf hs =>
      have ht := h.listens (by rw [hc]; nofun)
      exact ⟨h.backed.step hs, h.stage, fun hterm => absurd hterm (by rw [ht]; decide), hheard⟩
  | @arrive c ch text stage hc htext hs =>
      have ht := h.listens (by rw [hc]; nofun)
      have hstage : stage.Faithful th :=
        exec_invariant (fun _ _ _ hi hs => hi.step hs) _ h.stage hs
      have ht' := exec_dispatched _ hs
      exact ⟨h.backed, hstage, fun hterm => absurd hterm (by rw [ht', ht]; decide), hheard⟩
  | lost ha hclosed hopened hs =>
      have ht := h.listens hclosed
      refine ⟨h.backed, h.stage.step hs, fun hterm => absurd hterm ?_, hheard⟩
      show ¬ (_ : Stage).terminated = true
      rw [stage_error hs ht, Stage.push_terminated, ht]
      decide
  | resume hs =>
      exact ⟨h.backed, h.stage.resume (Stage.resume_cases hs), fun hterm => if_pos hterm, hheard⟩

/-! ## What the page says -/

namespace Theater

/-- All that a reaction has the page told. -/
def Reaction.acts : Reaction → List Act
  | .ignore => []
  | .stage running complete => running ++ complete
  | .stop acts => acts

theorem mem_consume (th : Theater) {a : Act} : ∀ {es : List Frame}, a ∈ (th.consume es).1 →
    ∃ e ∈ es, a ∈ (th.react e).acts := by
  intro es
  induction es with
  | nil => intro h; exact absurd h List.not_mem_nil
  | cons e es ih =>
      intro h
      have htail : a ∈ (th.consume es).1 → ∃ e' ∈ e :: es, a ∈ (th.react e').acts := fun h => by
        obtain ⟨e', he', ha⟩ := ih h
        exact ⟨e', List.mem_cons_of_mem e he', ha⟩
      cases hr : th.react e with
      | ignore => simp only [consume, hr] at h; exact htail h
      | stage running complete =>
          simp only [consume, hr] at h
          rcases List.mem_append.mp h with h | h
          · exact ⟨e, List.mem_cons_self, by rw [hr]; exact h⟩
          · exact htail h
      | stop acts =>
          simp only [consume, hr] at h
          exact ⟨e, List.mem_cons_self, by rw [hr]; exact h⟩

/-- What a failed stage says. -/
def stageFailed (th : Theater) (st : Step) : String :=
  "Stage “" ++ orElse (th.labelByKey st.key) st.key ++ "” failed."

/-- What a broken stream says. -/
def connectionLost : String := "The connection to the run was lost."

theorem react_step (th : Theater) (st : Step) : th.react (frameOf (.step st)) =
    if st.status = .failed then
      .stop [.close, .spine st.key "failed" "", .failRun (some (th.stageFailed st))]
    else
      .stage [.spine st.key "running" "", th.swapCard st "running"]
        [.spine st.key "complete" st.hash, th.swapCard st "complete"] := rfl

theorem react_done (th : Theater) {receiptID : String} (h : receiptID ≠ "") :
    th.react (frameOf (.done receiptID)) =
      .stop [.close, .card "Proof sealed" "" "Verified independently — opening the verdict.",
        .telemetry "demo.completed" th.telemetryMode "success", .seal, .navigate ("#/r/" ++ receiptID)] := by
  have hid : omitEmpty receiptID = some receiptID := if_neg h
  simp only [react, frameOf, hid, if_pos h]

theorem react_done_empty (th : Theater) : th.react (frameOf (.done "")) = .ignore := rfl

theorem react_error (th : Theater) (msg : String) :
    th.react (frameOf (.error msg)) = .stop (th.errorActs msg) := rfl

end Theater

/-- **The page is sent somewhere** only by a `done`. -/
theorem navigate_of_event {th : Theater} {e : Event} {hash : String}
    (h : .navigate hash ∈ (th.react (frameOf e)).acts) : ∃ id, e = .done id ∧ id ≠ "" ∧ hash = "#/r/" ++ id := by
  cases e with
  | state next => cases h
  | step st =>
      rw [Theater.react_step] at h
      split at h <;> simp [Theater.Reaction.acts, Theater.swapCard] at h
  | done id =>
      by_cases hid : id = ""
      · rw [hid, Theater.react_done_empty] at h; cases h
      · rw [Theater.react_done th hid] at h
        exact ⟨id, rfl, hid, by simpa [Theater.Reaction.acts] using h⟩
  | error msg =>
      rw [Theater.react_error] at h
      simp [Theater.Reaction.acts, Theater.errorActs] at h

/-- **A failure is announced** only by a failed step or an `error`. -/
theorem failRun_of_event {th : Theater} {e : Event} {msg : Option String}
    (h : .failRun msg ∈ (th.react (frameOf e)).acts) :
    (∃ st, e = .step st ∧ st.status = .failed ∧ msg = some (th.stageFailed st)) ∨
      ∃ text, e = .error text ∧ msg = omitEmpty text := by
  cases e with
  | state next => cases h
  | step st =>
      rw [Theater.react_step] at h
      split at h
      · rename_i hf
        exact .inl ⟨st, rfl, hf, by simpa [Theater.Reaction.acts] using h⟩
      · simp [Theater.Reaction.acts, Theater.swapCard] at h
  | done id =>
      by_cases hid : id = ""
      · rw [hid, Theater.react_done_empty] at h; cases h
      · rw [Theater.react_done th hid] at h
        simp [Theater.Reaction.acts] at h
  | error text =>
      rw [Theater.react_error] at h
      exact .inr ⟨text, rfl, by simpa [Theater.Reaction.acts, Theater.errorActs] using h⟩

/-- What is told when the connection is lost. -/
theorem react_sseError (th : Theater) :
    th.react sseError = .stop [.close, .failRun (some Theater.connectionLost)] := rfl

/-- A stage that is shown as complete, with its hash. -/
def completed : Act → Option (String × String)
  | .spine key state hash => if state = "complete" then some (key, hash) else none
  | _ => none

/-- The stages that have been shown as complete, in order. -/
def shown (acts : List Act) : List (String × String) := acts.filterMap completed

theorem shown_append (acts more : List Act) : shown (acts ++ more) = shown acts ++ shown more :=
  List.filterMap_append ..

theorem shown_mono {acts more : List Act} (h : acts <+: more) : shown acts <+: shown more :=
  h.filterMap completed

/-- The stages a page can show of a history. -/
def stagesOf (history : List Event) : List (String × String) := (stepsOf history).map fun s => (s.key, s.hash)

/-- **What is shown is of the history**, in its order and with its hashes. -/
theorem shown_consume (th : Theater) (tail : List Frame) (htail : shown (th.consume tail).1 = []) :
    ∀ history : List Event, shown (th.consume (frames history ++ tail)).1 <+: stagesOf history := by
  intro history
  induction history with
  | nil =>
      show shown (th.consume tail).1 <+: _
      rw [htail]
      exact List.nil_prefix
  | cons e history ih =>
      show shown (th.consume (frameOf e :: (frames history ++ tail))).1 <+: _
      cases e with
      | state next => exact ih
      | step st =>
          have hreact := th.react_step st
          by_cases hf : st.status = .failed
          · rw [if_pos hf] at hreact
            simp only [Theater.consume, hreact]
            exact List.nil_prefix
          · rw [if_neg hf] at hreact
            simp only [Theater.consume, hreact, shown_append]
            exact List.cons_prefix_cons.mpr ⟨rfl, ih⟩
      | done id =>
          by_cases hid : id = ""
          · subst hid; exact ih
          · simp only [Theater.consume, Theater.react_done th hid]
            exact List.nil_prefix
      | error msg =>
          show shown (th.errorActs msg) <+: _
          exact List.nil_prefix

/-! ## The page is truthful -/

theorem reduceOption_frames (es : List Frame) (xs : List (Option Frame)) :
    (es.map some ++ xs).reduceOption = es ++ xs.reduceOption := by
  rw [List.reduceOption_append]
  congr 1
  rw [List.reduceOption, List.filterMap_map]
  exact List.filterMap_some

/-- **What the page has been told** is the beginning of what the loop tells of a beginning of the history, which
    an error may have cut short. -/
theorem Visit.Heard.told {th : Theater} {id : String} {v : Visit X} {ok : List Event → Prop}
    (h : v.Heard ok id) (hstage : v.stage.Faithful th) :
    ∃ got tail, got <+: historyOf v.manager id ∧ v.stage.acts <+: (th.consume (frames got ++ tail)).1 ∧
      (tail = [] ∨ tail = [sseError] ∧ ok got ∧
        ∃ more, v.stage.arrived = (frames got).map some ++ some sseError :: more) := by
  obtain ⟨got, hpre, hheard⟩ := h
  have hacts := hstage.acts_prefix
  rcases hheard with ⟨harr, _⟩ | ⟨hok, more, harr⟩
  · have hframes := reduceOption_frames (frames got) []
    rw [List.append_nil] at hframes
    refine ⟨got, [], hpre, ?_, .inl rfl⟩
    rw [harr, hframes] at hacts
    exact hacts
  · refine ⟨got, [sseError], hpre, ?_, .inr ⟨rfl, hok, more, harr⟩⟩
    have hended : (th.consume (frames got ++ [sseError])).2 = true := by
      rw [← Bool.not_eq_false, Theater.consume_live_iff]
      intro hno
      exact hno sseError (by simp) (.inr (.inr (.inr rfl)))
    have hsplit : frames got ++ sseError :: more.reduceOption
        = frames got ++ [sseError] ++ more.reduceOption := by simp
    rw [harr, reduceOption_frames, List.reduceOption_cons_of_some, hsplit,
      Theater.consume_append_ended hended] at hacts
    exact hacts

/-- An event that ends the loop is among these. -/
def Decided (got : List Event) : Prop := ∃ e ∈ frames got, e.Decisive

/-- **What the page has been told** comes from an event of the history; or it says that the stream broke, which it
    did before anything was decided. -/
theorem Visit.Heard.because {th : Theater} {id : String} {v : Visit X} {ok : List Event → Prop}
    (h : v.Heard ok id) (hstage : v.stage.Faithful th) {a : Act} (ha : a ∈ v.stage.acts) :
    (∃ e ∈ historyOf v.manager id, a ∈ (th.react (frameOf e)).acts) ∨
      a ∈ (th.react sseError).acts ∧ ∃ got more, got <+: historyOf v.manager id ∧ ok got ∧ ¬ Decided got ∧
        v.stage.arrived = (frames got).map some ++ some sseError :: more := by
  obtain ⟨got, tail, hpre, hacts, htail⟩ := h.told hstage
  have hfrom : ∀ e ∈ frames got, a ∈ (th.react e).acts →
      ∃ e ∈ historyOf v.manager id, a ∈ (th.react (frameOf e)).acts := by
    intro e he hea
    obtain ⟨ev, hev, rfl⟩ := List.mem_map.mp he
    exact ⟨ev, hpre.mem hev, hea⟩
  rcases htail with rfl | ⟨rfl, hok, more, harr⟩
  · obtain ⟨e, he, hea⟩ := th.mem_consume (hacts.mem ha)
    rw [List.append_nil] at he
    exact .inl (hfrom e he hea)
  · by_cases hdecided : Decided got
    · have hended : (th.consume (frames got)).2 = true := by
        rw [← Bool.not_eq_false, Theater.consume_live_iff]
        obtain ⟨e, he, hdecisive⟩ := hdecided
        exact fun hno => hno e he hdecisive
      rw [Theater.consume_append_ended hended] at hacts
      obtain ⟨e, he, hea⟩ := th.mem_consume (hacts.mem ha)
      exact .inl (hfrom e he hea)
    · obtain ⟨e, he, hea⟩ := th.mem_consume (hacts.mem ha)
      rcases List.mem_append.mp he with he | he
      · exact .inl (hfrom e he hea)
      · rw [List.mem_singleton.mp he] at hea
        exact .inr ⟨hea, got, more, hpre, hok, hdecided, harr⟩

/-- An event of a history is one of a run. -/
theorem mem_historyOf {m : RunManager X} {id : String} {e : Event} (h : e ∈ historyOf m id) :
    ∃ t, m.runs.lookup id = some t ∧ e ∈ t.run.history := by
  cases hl : m.runs.lookup id with
  | none => rw [historyOf, hl] at h; cases h
  | some t => rw [historyOf_eq hl] at h; exact ⟨t, rfl, h⟩

/-- What a `done` in a history stands for: the record that the run's own `Put` returned. -/
theorem Backed.completed {rn : Runner X} {m : RunManager X} (h : Backed rn m) {id receiptID : String}
    {t : Task X} (hl : m.runs.lookup id = some t) (hmem : .done receiptID ∈ t.run.history) :
    t.run.state = .complete ∧ ∃ rec early since, rec.id = receiptID ∧ t.put = some rec ∧
      m.log = early ++ .inserted id rec :: since ∧ Retained m.store id rec since := by
  have hserved := h.runs.runs id t hl
  have hctl : t.ctl = .finishing (.ok receiptID) .ended :=
    hserved.onCourse.over (show Run.finalEvent (.ok receiptID) ∈ _ from hmem)
  have hcons := hserved.onCourse.consistent
  obtain ⟨rec, hput, hrec⟩ := hcons.outcome _ _ hctl
  obtain ⟨_, hinserted⟩ := h.stored.put id t rec hl hput
  obtain ⟨early, since, hlog⟩ := List.append_of_mem hinserted
  exact ⟨by rw [hcons.state, hctl]; rfl, rec, early, since, hrec, hput, hlog, h.retained early id rec since hlog⟩

/-- What an `error` in a history stands for. -/
theorem Backed.failed {rn : Runner X} {m : RunManager X} (h : Backed rn m) {id text : String} {t : Task X}
    (hl : m.runs.lookup id = some t) (hmem : .error text ∈ t.run.history) :
    t.run.state = .failed ∧ t.run.errMsg = text ∧ text ≠ "" := by
  have hserved := h.runs.runs id t hl
  have hctl : t.ctl = .finishing (.error text) .ended :=
    hserved.onCourse.over (show Run.finalEvent (.error text) ∈ _ from hmem)
  have hcons := hserved.onCourse.consistent
  exact ⟨by rw [hcons.state, hctl]; rfl, by rw [hcons.errMsg, hctl]; rfl, hcons.outcome _ _ hctl⟩

theorem sound_exec {rn : Runner X} {m : RunManager X} (h : Backed rn m) (th : Theater) {id : String}
    {as : List VisitAction} {v : Visit X} (hv : exec (Visit.step th id) (.start m) as = some v) :
    Sound rn th id v :=
  exec_invariant (fun _ _ _ hi hs => hi.step (visit_step hs)) as (sound_start h th id) hv

theorem backed_exec {C : RunCodec X} {os : Disk} {dir : String} {files : FilePath.Files C.Data}
    {store : ReceiptStore X} (hopen : newReceiptStore C os dir files = .ok store) (rn : Runner X)
    {before : List ManagerAction} {m : RunManager X}
    (hm : exec RunManager.step (newRunManager rn store) before = some m) : Backed rn m :=
  exec_invariant (fun _ _ _ hi hs => hi.step (manager_step hs)) before (backed_new hopen rn) hm

end Web
end InfrixPlayground
