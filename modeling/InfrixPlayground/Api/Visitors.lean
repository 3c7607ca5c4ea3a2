import Mathlib.Data.List.Induction
import InfrixPlayground.Api.Admission
import InfrixPlayground.Api.RateBound

/-!
# `Api.Visitors` — how many runs a visitor can start

The server sits behind a proxy that appends the visitor's address to the `X-Forwarded-For` value the visitor
sent, and `clientKey` takes the first hop of what arrives: the visitor's own text, if it sent one. `Ask` is
one call to the limiter, and `Recorded` ties the calls of a run of the server to the requests they were made
for. With one first hop a visitor is held to its bucket; with two it has two.
-/

namespace InfrixPlayground
namespace Api

open GoText Worker Machine

variable {X : Externals}

/-! ## The calls to the limiter -/

/-- One call to the limiter, its answer, and the run request it was made for, if it was made for one. -/
structure Ask where
  time : Time
  key : String
  request : Option Nat
  answer : Decision

/-- The call an action makes, if it makes one. -/
def Serving.ask (s : Serving X) : ServingAction → Option Ask
  | .handle i now =>
    match s.requests[i]? with
    | none => none
    | some q =>
      match q.stage with
      | .screened _ =>
        some { time := now, key := clientKey q.http, request := some i,
               answer := (s.server.limiter.allow now (clientKey q.http)).2 }
      | _ => none
  | .verify now http =>
    some { time := now, key := clientKey http, request := none,
           answer := (s.server.limiter.allow now (clientKey http)).2 }
  | _ => none

/-- The calls a run of the server makes, in order. -/
def asks : Serving X → List ServingAction → List Ask
  | _, [] => []
  | s, a :: as =>
    (s.ask a).toList ++
      match s.step a with
      | some s' => asks s' as
      | none => []

theorem asks_cons {s s' : Serving X} {a : ServingAction} (h : s.step a = some s') (as : List ServingAction) :
    asks s (a :: as) = (s.ask a).toList ++ asks s' as := by
  rw [asks, h]

theorem asks_append {s t : Serving X} {as : List ServingAction} (bs : List ServingAction)
    (h : exec Serving.step s as = some t) : asks s (as ++ bs) = asks s as ++ asks t bs := by
  induction as generalizing s with
  | nil => rw [exec_nil] at h; cases h; rfl
  | cons a as ih =>
      obtain ⟨s', hs, hrest⟩ := exec_cons_iff.mp h
      rw [List.cons_append, asks_cons hs, asks_cons hs, ih hrest, List.append_assoc]

/-- What the limiter has answered the `i`-th request. -/
def Serving.decisionsOf (s : Serving X) (i : Nat) : List Decision :=
  (s.requests[i]?).elim [] Request.decisions

/-- A request keeps its number, its endpoint and its HTTP request. -/
def Serving.Keeps (s s' : Serving X) : Prop :=
  ∀ (i : Nat) (q : Request), s.requests[i]? = some q →
    ∃ q', s'.requests[i]? = some q' ∧ q'.endpoint = q.endpoint ∧ q'.http = q.http

theorem Serving.Keeps.refl (s : Serving X) : s.Keeps s := fun _ q hq => ⟨q, hq, rfl, rfl⟩

/-- The handling of a request leaves the request as it came in, and asks the limiter from one stage only. -/
theorem HandleStep.asked {s s' : Server X} {q q' : Request} {now : Time} (hs : HandleStep s q now s' q') :
    q'.endpoint = q.endpoint ∧ q'.http = q.http ∧
      ((∃ p, q.stage = .screened p ∧ s'.limiter = (s.limiter.allow now (clientKey q.http)).1 ∧
          q'.decisions = q.decisions ++ [(s.limiter.allow now (clientKey q.http)).2]) ∨
        (∀ p, q.stage ≠ .screened p) ∧ s'.limiter = s.limiter ∧ q'.decisions = q.decisions) := by
  cases hs with
  | refuse hc hr => exact ⟨rfl, rfl, .inr ⟨by rw [hc]; nofun, rfl, rfl⟩⟩
  | pass hc hp => exact ⟨rfl, rfl, .inr ⟨by rw [hc]; nofun, rfl, rfl⟩⟩
  | countRefused hc => exact ⟨rfl, rfl, .inr ⟨by rw [hc]; nofun, rfl, rfl⟩⟩
  | replyRefused hc => exact ⟨rfl, rfl, .inr ⟨by rw [hc]; nofun, rfl, rfl⟩⟩
  | ask hc hd => exact ⟨rfl, rfl, .inl ⟨_, hc, by rw [hd], by rw [hd]⟩⟩
  | countDenied hc => exact ⟨rfl, rfl, .inr ⟨by rw [hc]; nofun, rfl, rfl⟩⟩
  | replyDenied hc => exact ⟨rfl, rfl, .inr ⟨by rw [hc]; nofun, rfl, rfl⟩⟩
  | number hc hs => exact ⟨rfl, rfl, .inr ⟨by rw [hc]; nofun, rfl, rfl⟩⟩
  | register hc hs => exact ⟨rfl, rfl, .inr ⟨by rw [hc]; nofun, rfl, rfl⟩⟩
  | count hc hs => exact ⟨rfl, rfl, .inr ⟨by rw [hc]; nofun, rfl, rfl⟩⟩
  | launch hc hs => exact ⟨rfl, rfl, .inr ⟨by rw [hc]; nofun, rfl, rfl⟩⟩
  | wait hc hst => exact ⟨rfl, rfl, .inr ⟨fun p he => by rw [he] at hc; exact hc, rfl, rfl⟩⟩
  | answer hc hr => exact ⟨rfl, rfl, .inr ⟨fun p he => by rw [he] at hc; exact hc, rfl, rfl⟩⟩

/-- One request of the list moves on. -/
theorem Serving.Keeps.set {s : Serving X} {server : Server X} {i : Nat} {q q' : Request}
    (hq : s.requests[i]? = some q) (hendpoint : q'.endpoint = q.endpoint) (hhttp : q'.http = q.http) :
    s.Keeps { server := server, requests := s.requests.set i q' } :=
  exists_replace (R := fun u u' => u'.endpoint = u.endpoint ∧ u'.http = u.http) hq (fun _ => ⟨rfl, rfl⟩)
    ⟨hendpoint, hhttp⟩

theorem decisionsOf_set {s : Serving X} {server : Server X} {i : Nat} {q q' : Request}
    (hq : s.requests[i]? = some q) (j : Nat) :
    Serving.decisionsOf { server := server, requests := s.requests.set i q' } j
      = if j = i then q'.decisions else s.decisionsOf j :=
  elim_replace hq q' j

/-- A request asks from the stage `screened`. -/
theorem ask_screened {s : Serving X} {i : Nat} {q : Request} (hq : s.requests[i]? = some q) {p : RunParams}
    (hc : q.stage = .screened p) (now : Time) :
    s.ask (.handle i now) = some
      { time := now, key := clientKey q.http, request := some i,
        answer := (s.server.limiter.allow now (clientKey q.http)).2 } := by
  unfold Serving.ask
  simp only [hq, hc]

theorem ask_not_screened {s : Serving X} {i : Nat} {q : Request} (hq : s.requests[i]? = some q)
    (hno : ∀ p, q.stage ≠ .screened p) (now : Time) : s.ask (.handle i now) = none := by
  unfold Serving.ask
  simp only [hq]

/-- What a step changes when it makes this call, or none: the limiter, and what the request was answered. -/
structure Serving.Answers (s : Serving X) (call : Option Ask) (s' : Serving X) : Prop where
  keeps : s.Keeps s'
  limiter : s'.server.limiter =
    call.elim s.server.limiter fun k => (s.server.limiter.allow k.time k.key).1
  decisions : ∀ i, s'.decisionsOf i = s.decisionsOf i ++
    call.elim [] fun k => if k.request = some i then [k.answer] else []
  answer : ∀ k, call = some k → k.answer = (s.server.limiter.allow k.time k.key).2
  key : ∀ k, call = some k → ∀ i, k.request = some i →
    ∃ q, s.requests[i]? = some q ∧ clientKey q.http = k.key

/-- A step that makes no call. -/
theorem Serving.Answers.quiet {s s' : Serving X} (hkeeps : s.Keeps s')
    (hlimiter : s'.server.limiter = s.server.limiter) (hdecisions : ∀ i, s'.decisionsOf i = s.decisionsOf i) :
    s.Answers none s' :=
  ⟨hkeeps, hlimiter, fun i => (hdecisions i).trans (List.append_nil _).symm, nofun, nofun⟩

/-- A step of a request. -/
theorem HandleStep.answers {s : Serving X} {i : Nat} {now : Time} {q q' : Request} {server : Server X}
    (hq : s.requests[i]? = some q) (hs : HandleStep s.server q now server q') :
    s.Answers (s.ask (.handle i now)) { server := server, requests := s.requests.set i q' } := by
  obtain ⟨hendpoint, hhttp, hasked⟩ := hs.asked
  have hkeeps : s.Keeps { server := server, requests := s.requests.set i q' } := .set hq hendpoint hhttp
  have hold : s.decisionsOf i = q.decisions := by rw [Serving.decisionsOf, hq]; rfl
  rcases hasked with ⟨p, hc, hlimiter, hdecisions⟩ | ⟨hno, hlimiter, hdecisions⟩
  · rw [ask_screened hq hc]
    refine ⟨hkeeps, hlimiter, fun j => ?_, ?_, ?_⟩
    · rw [decisionsOf_set hq]
      by_cases hji : j = i
      · subst hji
        rw [if_pos rfl, hdecisions, hold]
        exact congrArg _ (if_pos rfl).symm
      · rw [if_neg hji]
        exact ((congrArg _ (if_neg fun he => hji (Option.some.inj he).symm)).trans (List.append_nil _)).symm
    · intro k hk; cases hk; rfl
    · intro k hk j hj
      cases hk
      cases hj
      exact ⟨q, hq, rfl⟩
  · rw [ask_not_screened hq hno]
    refine .quiet hkeeps hlimiter fun j => ?_
    rw [decisionsOf_set hq]
    split
    · rename_i hji; subst hji; rw [hdecisions, hold]
    · rfl

/-- **What a step of the machine asks.** With a call the limiter changes, and the answer goes to the request
    it was made for; without one neither changes. -/
theorem ServingStep.answers {s s' : Serving X} {a : ServingAction} (hs : ServingStep s a s') :
    s.Answers (s.ask a) s' := by
  cases hs with
  | @receive endpoint http =>
      refine .quiet (fun i q hq => ?_) rfl fun i => ?_
      · obtain ⟨hlt, _⟩ := List.getElem?_eq_some_iff.mp hq
        exact ⟨q, (List.getElem?_append_left hlt).trans hq, rfl, rfl⟩
      · exact elim_append rfl s.requests i
  | handle hq hs => exact hs.answers hq
  | @leave i q hq hc =>
      refine .quiet (.set hq rfl rfl) rfl fun j => ?_
      rw [decisionsOf_set hq]
      split
      · rename_i hji; subst hji; rw [Serving.decisionsOf, hq]; rfl
      · rfl
  | run hs => exact .quiet (.refl _) rfl fun _ => rfl
  | cleanup hs => exact .quiet (.refl _) rfl fun _ => rfl
  | @verify now http limiter d hd =>
      refine ⟨.refl _, ?_, fun i => ?_, ?_, ?_⟩
      · show limiter = (s.server.limiter.allow now (clientKey http)).1
        rw [hd]
      · exact (List.append_nil _).symm
      · intro k hk; cases hk; rfl
      · intro k hk i hi
        cases hk
        cases hi
  | inc hn => exact .quiet (.refl _) rfl fun _ => rfl

/-! ## A run of the server and its calls -/

/-- What the calls made so far have to do with the requests. -/
structure Recorded (calls : List Ask) (s : Serving X) : Prop where
  decisions : ∀ i, s.decisionsOf i = (calls.filter fun k => k.request = some i).map Ask.answer
  key : ∀ k ∈ calls, ∀ i, k.request = some i → ∃ q, s.requests[i]? = some q ∧ clientKey q.http = k.key

/-- **Every step** keeps the calls recorded. -/
theorem Recorded.step {calls : List Ask} {s s' : Serving X} {a : ServingAction} (h : Recorded calls s)
    (hs : ServingStep s a s') : Recorded (calls ++ (s.ask a).toList) s' := by
  have hans := hs.answers
  constructor
  · intro i
    rw [hans.decisions i, h.decisions i, List.filter_append, List.map_append]
    cases s.ask a with
    | none => rfl
    | some k =>
        show _ ++ (if k.request = some i then [k.answer] else []) = _ ++ ([k].filter _).map _
        by_cases hk : k.request = some i <;> simp [hk]
  · intro k hk i hi
    have hkey : ∃ q, s.requests[i]? = some q ∧ clientKey q.http = k.key := by
      rcases List.mem_append.mp hk with hk | hk
      · exact h.key k hk i hi
      · exact hans.key k (Option.mem_toList.mp hk) i hi
    obtain ⟨q, hq, hkey⟩ := hkey
    obtain ⟨q', hq', _, hhttp⟩ := hans.keeps i q hq
    exact ⟨q', hq', by rw [hhttp]; exact hkey⟩

theorem recorded_exec {s₀ : Serving X} (h₀ : Recorded [] s₀) :
    ∀ (as : List ServingAction) {s : Serving X}, exec Serving.step s₀ as = some s → Recorded (asks s₀ as) s := by
  intro as
  induction as using List.reverseRecOn with
  | nil => intro s h; rw [exec_nil] at h; cases h; exact h₀
  | append_singleton as a ih =>
      intro s h
      obtain ⟨m, hm, hlast⟩ := exec_append_iff.mp h
      obtain ⟨s', hs, hnil⟩ := exec_cons_iff.mp hlast
      cases hnil
      rw [asks_append [a] hm, asks_cons hs, asks, List.append_nil]
      exact (ih hm).step (serving_step hs)

/-- The key and the time of a call, as the limiter sees it. -/
def Ask.call (k : Ask) : Time × String := (k.time, k.key)

/-- The call is one of `key`'s in the window, and is admitted. -/
def Ask.AdmittedIn (key : String) (t₀ t₁ : Time) (k : Ask) : Prop :=
  k.key = key ∧ k.answer.allowed = true ∧ t₀ ≤ k.time ∧ k.time ≤ t₁

instance (key : String) (t₀ t₁ : Time) (k : Ask) : Decidable (k.AdmittedIn key t₀ t₁) :=
  inferInstanceAs (Decidable (_ ∧ _ ∧ _ ∧ _))

/-- **The server's limiter is the limiter.** The calls of a run of the server that are admitted are those the
    limiter admits. -/
theorem admitted_asks (key : String) (t₀ t₁ : Time) : ∀ (as : List ServingAction) {s t : Serving X},
    exec Serving.step s as = some t →
      admitted key t₀ t₁ s.server.limiter ((asks s as).map Ask.call)
        = ((asks s as).filter fun k => k.AdmittedIn key t₀ t₁).length := by
  intro as
  induction as with
  | nil => intros; rfl
  | cons a as ih =>
      intro s t h
      obtain ⟨s', hs, hrest⟩ := exec_cons_iff.mp h
      have hans := (serving_step hs).answers
      have hlimiter := hans.limiter
      have hanswer := hans.answer
      rw [asks_cons hs]
      cases hk : s.ask a with
      | none =>
          rw [hk] at hlimiter
          replace hlimiter : s'.server.limiter = s.server.limiter := hlimiter
          rw [← hlimiter]
          exact ih hrest
      | some k =>
          rw [hk] at hlimiter
          replace hlimiter : s'.server.limiter = (s.server.limiter.allow k.time k.key).1 := hlimiter
          show admitted key t₀ t₁ s.server.limiter ((k.time, k.key) :: (asks s' as).map Ask.call) = _
          rw [admitted, ← hlimiter, ih hrest, ← hanswer k hk]
          show _ = ((k :: asks s' as).filter _).length
          by_cases hin : k.AdmittedIn key t₀ t₁
          · rw [if_pos (show k.key = key ∧ _ from hin), List.filter_cons_of_pos (by simpa using hin),
              List.length_cons, Nat.add_comm]
          · rw [if_neg (show ¬ (k.key = key ∧ _) from hin), List.filter_cons_of_neg (by simpa using hin),
              Nat.zero_add]

/-! ## A visitor -/

/-- The first hop of an `X-Forwarded-For` value. -/
def firstHop (xff : String) : String :=
  if ',' ∈ xff.toList then trimSpace (before xff ',') else trimSpace xff

theorem clientKey_eq {r : HttpRequest} (h : r.xForwardedFor ≠ "") : clientKey r = firstHop r.xForwardedFor :=
  if_pos h

/-- The header the proxy passes on: the client's address, after what the client sent if it sent one. -/
def viaProxy (sent : Option String) (addr : String) : String :=
  match sent with
  | none => addr
  | some v => v ++ ", " ++ addr

/-- A client behind the proxy: its address, and the `X-Forwarded-For` values it may send, `none` for a
    request without one. -/
structure Visitor where
  addr : String
  sent : Set (Option String)
  addr_ne : addr ≠ ""

theorem Visitor.viaProxy_ne (v : Visitor) (h : Option String) : viaProxy h v.addr ≠ "" := by
  cases h with
  | none => exact v.addr_ne
  | some x =>
      intro he
      exact v.addr_ne (String.append_eq_empty_iff.mp he).2

/-- The request is one of the visitor's for a run, as it arrives at the server. -/
def Visitor.Sends (v : Visitor) (q : Request) : Prop :=
  q.endpoint = .createRun ∧ ∃ h ∈ v.sent, q.http.xForwardedFor = viaProxy h v.addr

/-- A request of the visitor started the run `id`, and was admitted within the window. -/
def StartedWithin (v : Visitor) (t₀ t₁ : Time) (calls : List Ask) (s : Serving X) (id : String) : Prop :=
  ∃ i q k, s.requests[i]? = some q ∧ v.Sends q ∧ id ∈ q.started ∧ k ∈ calls ∧ k.request = some i ∧
    t₀ ≤ k.time ∧ k.time ≤ t₁

/-- The visitor never gets more runs than one bucket yields: whatever the server, and whatever happens on
    it, as long as the clock does not run backwards. -/
def Visitor.KeepsBound (v : Visitor) : Prop :=
  ∀ (X : Externals) (C : RunCodec X) (os : Disk) (cfg : Config) (files : FilePath.Files C.Data)
    (server : Server X), newServer C os cfg files = .ok server → cfg.rateLimit = defaultRateLimitConfig →
    ∀ (as : List ServingAction) (s : Serving X), exec Serving.step (Serving.new server) as = some s →
      ((asks (Serving.new server) as).map Ask.time).Pairwise (· ≤ ·) →
      ∀ t₀ t₁ : Time, t₀ ≤ t₁ → ∀ ids : List String, ids.Nodup →
        (∀ id ∈ ids, StartedWithin v t₀ t₁ (asks (Serving.new server) as) s id) →
        (ids.length : ℚ) ≤ 5 + 10 * (t₁ - t₀) / 60

/-! ## One first hop, one bucket -/

theorem recorded_new (server : Server X) : Recorded [] (Serving.new server) := ⟨fun _ => rfl, nofun⟩

theorem newServer_limiter {C : RunCodec X} {os : Disk} {cfg : Config} {files : FilePath.Files C.Data}
    {server : Server X} (h : newServer C os cfg files = .ok server) :
    server.limiter = newRateLimiter cfg.rateLimit := by
  unfold newServer at h
  split at h
  · cases h
  · cases h; rfl

/-- The call of a request that started a run was admitted, under the request's key. -/
theorem Recorded.admittedIn {cfg : Config} {calls : List Ask} {s : Serving X} (h : Recorded calls s)
    (hadm : Admitted cfg s) {i : Nat} {q : Request} (hq : s.requests[i]? = some q) (hstarted : q.started ≠ [])
    {k : Ask} (hk : k ∈ calls) (hi : k.request = some i) {t₀ t₁ : Time} (h₀ : t₀ ≤ k.time) (h₁ : k.time ≤ t₁) :
    k.AdmittedIn (clientKey q.http) t₀ t₁ := by
  obtain ⟨q', hq', hkey⟩ := h.key k hk i hi
  cases Option.some.inj (hq.symm.trans hq')
  refine ⟨hkey.symm, ?_, h₀, h₁⟩
  obtain ⟨d, hd, hallowed⟩ := (hadm.fits i q hq).allowed_of_started hstarted
  have hone : (calls.filter fun k => k.request = some i).map Ask.answer = [d] := by
    rw [← h.decisions i, Serving.decisionsOf, hq]
    exact hd
  have hmem : k.answer ∈ [d] :=
    hone ▸ List.mem_map_of_mem (List.mem_filter.mpr ⟨hk, decide_eq_true hi⟩)
  rw [List.mem_singleton.mp hmem]
  exact hallowed

/-- **One run for each call**: the runs started by the requests of some calls are no more than the calls. -/
theorem Admitted.length_started_le {cfg : Config} {s : Serving X} (h : Admitted cfg s) (calls : List Ask) :
    (calls.flatMap fun k => k.request.elim [] s.startedBy).length ≤ calls.length := by
  induction calls with
  | nil => exact Nat.le_refl _
  | cons k calls ih =>
      have hone : (k.request.elim [] s.startedBy).length ≤ 1 := by
        cases k.request with
        | none => exact Nat.zero_le _
        | some i =>
            show ((s.requests[i]?).elim [] Request.started).length ≤ 1
            cases hq : s.requests[i]? with
            | none => exact Nat.zero_le _
            | some q =>
                show q.started.length ≤ 1
                rcases (h.fits i q hq).started_cases with hnone | ⟨id, hid⟩
                · rw [hnone]; exact Nat.zero_le _
                · rw [hid]; exact Nat.le_refl _
      rw [List.flatMap_cons, List.length_append, List.length_cons]
      omega

/-- **With one first hop** all the visitor's calls go to one bucket, and the bucket keeps the bound. -/
theorem Visitor.keepsBound_of_one_hop {v : Visitor} (hone : ∀ h ∈ v.sent, ∀ h' ∈ v.sent,
    firstHop (viaProxy h v.addr) = firstHop (viaProxy h' v.addr)) : v.KeepsBound := by
  intro X C os cfg files server hopen hcfg as s hs hclock t₀ t₁ hw ids hnodup hids
  have hadm : Admitted cfg s :=
    exec_invariant (fun _ _ _ hi hs => hi.step (serving_step hs)) as (admitted_new hopen) hs
  have hrec := recorded_exec (recorded_new server) as hs
  -- the key of all the visitor's requests
  obtain ⟨key, hkey⟩ : ∃ key, ∀ q, v.Sends q → clientKey q.http = key := by
    by_cases hsome : ∃ h, h ∈ v.sent
    · obtain ⟨h, hh⟩ := hsome
      refine ⟨firstHop (viaProxy h v.addr), fun q ⟨_, h', hh', hxff⟩ => ?_⟩
      rw [clientKey_eq (hxff ▸ v.viaProxy_ne h'), hxff]
      exact hone h' hh' h hh
    · exact ⟨"", fun q ⟨_, h, hh, _⟩ => absurd ⟨h, hh⟩ hsome⟩
  have hsubset : ids ⊆ ((asks (Serving.new server) as).filter fun k => k.AdmittedIn key t₀ t₁).flatMap
      fun k => k.request.elim [] s.startedBy := by
    intro id hid
    obtain ⟨i, q, k, hq, hsends, hstarted, hk, hi, h₀, h₁⟩ := hids id hid
    have hin := hrec.admittedIn hadm hq (List.ne_nil_of_mem hstarted) hk hi h₀ h₁
    rw [hkey q hsends] at hin
    refine List.mem_flatMap.mpr ⟨k, List.mem_filter.mpr ⟨hk, decide_eq_true hin⟩, ?_⟩
    rw [hi]
    show id ∈ (s.requests[i]?).elim [] Request.started
    rw [hq]
    exact hstarted
  have hle := (List.subperm_of_subset hnodup hsubset).length_le.trans (hadm.length_started_le _)
  have hcount := admitted_asks key t₀ t₁ as hs
  have hlimiter : (Serving.new server).server.limiter = newRateLimiter defaultRateLimitConfig := by
    rw [← hcfg]
    exact newServer_limiter hopen
  rw [hlimiter] at hcount
  have hbound : WindowBound defaultRateLimitConfig key ((asks (Serving.new server) as).map Ask.call) t₀ t₁ := by
    refine windowBound_of (by decide +kernel) (by decide +kernel) (.inr (by decide +kernel)) ?_ hw
    rw [List.map_map]
    exact hclock
  rw [WindowBound, hcount] at hbound
  exact (Nat.cast_le.mpr hle).trans hbound

/-! ## Two first hops, two buckets -/

/-- Calls at one instant, all admitted. -/
def Admits (t : Time) : RateLimiter → List String → Prop
  | _, [] => True
  | rl, key :: keys => (rl.allow t key).2.allowed = true ∧ Admits t (rl.allow t key).1 keys

/-- **A burst of one key** leaves the levels of all others alone. -/
theorem admits_burst {cfg : RateLimitConfig} {t : Time} (key : String) : ∀ (n : ℕ) {rl : RateLimiter},
    Built cfg t rl → (n : ℚ) ≤ rl.levelAt key t →
      ∃ rl', Built cfg t rl' ∧ (∀ key' ≠ key, rl'.levelAt key' t = rl.levelAt key' t) ∧
        ∀ keys, Admits t rl' keys → Admits t rl (List.replicate n key ++ keys) := by
  intro n
  induction n with
  | zero => intro rl hrl _; exact ⟨rl, hrl, fun _ _ => rfl, fun _ h => h⟩
  | succ n ih =>
      intro rl hrl hlev
      have h0 : (0 : ℚ) ≤ n := Nat.cast_nonneg n
      rw [Nat.cast_succ] at hlev
      have hyes : (rl.allow t key).2.allowed = true := by
        rw [allow_allowed hrl.ok.cap_pos]; exact decide_eq_true (by linarith)
      obtain ⟨rl', hbuilt, hothers, hrest⟩ :=
        ih (hrl.allow key) (by rw [hrl.levelAt_allow_self hyes]; linarith)
      refine ⟨rl', hbuilt, fun key' hne => ?_, fun keys hkeys => ⟨hyes, hrest keys hkeys⟩⟩
      rw [hothers key' hne, levelAt_allow_ne hrl.ok le_rfl hne]

/-- A request for a run that comes in as the `n`-th, up to the point where the run has its number. -/
def visit (n : Nat) (http : HttpRequest) : List ServingAction :=
  .receive .createRun http :: List.replicate 3 (.handle n 0)

/-- One such request after the other. -/
def visits : Nat → List HttpRequest → List ServingAction
  | _, [] => []
  | n, http :: https => visit n http ++ visits (n + 1) https

/-- A step of the request that came in last. -/
theorem step_handle_last {server server' : Server X} {rs : List Request} {q q' : Request} {now : Time}
    (h : server.handle q now = some (server', q')) :
    Serving.step { server := server, requests := rs ++ [q] } (.handle rs.length now)
      = some { server := server', requests := rs ++ [q'] } := by
  have hq : (rs ++ [q])[rs.length]? = some q := List.getElem?_concat_length
  simp only [Serving.step, hq, h, Option.map_some, List.set_append_right _ _ (Nat.le_refl _), Nat.sub_self,
    List.set_cons_zero]

/-- **One visit.** A request that passes the checks and is allowed starts the next run. -/
theorem exec_visit {s : Serving X} {http : HttpRequest} {p : RunParams}
    (hscreen : ∀ kermitDisabled, screen X s.server.cfg s.server.guard kermitDisabled http.body = .ok p)
    (hallowed : (s.server.limiter.allow 0 (clientKey http)).2.allowed = true) :
    ∃ s' q, exec Serving.step s (visit s.requests.length http) = some s' ∧
      s'.requests = s.requests ++ [q] ∧ q.endpoint = .createRun ∧ q.http = http ∧
      q.started = [runName (s.server.runs.counter + 1)] ∧
      s'.server.cfg = s.server.cfg ∧ s'.server.guard = s.server.guard ∧
      s'.server.limiter = (s.server.limiter.allow 0 (clientKey http)).1 ∧
      s'.server.runs.counter = s.server.runs.counter + 1 := by
  obtain ⟨server, rs⟩ := s
  have hpass : server.handle (.new .createRun http) 0 =
      some (server, (Request.new .createRun http).goto (.screened p)) := by
    show server.handleCreateRun (.new .createRun http) 0 = _
    simp only [Server.handleCreateRun, Server.beginRun, Request.new, hscreen]
  have hask : server.handle ((Request.new .createRun http).goto (.screened p)) 0 =
      some ({ server with limiter := (server.limiter.allow 0 (clientKey http)).1 },
        { Request.new .createRun http with
          stage := .admitted p
          decisions := [(server.limiter.allow 0 (clientKey http)).2] }) := by
    show server.handleCreateRun ((Request.new .createRun http).goto (.screened p)) 0 = _
    simp only [Server.handleCreateRun, Server.beginRun, Request.goto, Request.new, hallowed, if_true,
      List.nil_append]
  refine ⟨_, _, exec_cons_iff.mpr ⟨_, rfl, exec_cons_iff.mpr ⟨_, step_handle_last hpass,
    exec_cons_iff.mpr ⟨_, step_handle_last hask, exec_cons_iff.mpr ⟨_, step_handle_last rfl, rfl⟩⟩⟩⟩,
    rfl, rfl, rfl, rfl, rfl, rfl, rfl, rfl⟩

/-- **Visits that are all allowed** start one run each, numbered one after the other. -/
theorem exec_visits {p : RunParams} : ∀ (https : List HttpRequest) {s : Serving X},
    (∀ http ∈ https, ∀ kermitDisabled,
      screen X s.server.cfg s.server.guard kermitDisabled http.body = .ok p) →
    Admits 0 s.server.limiter (https.map clientKey) →
      ∃ s' qs, exec Serving.step s (visits s.requests.length https) = some s' ∧
        s'.requests = s.requests ++ qs ∧ (∀ q ∈ qs, q.endpoint = .createRun ∧ q.http ∈ https) ∧
        qs.flatMap Request.started
          = (List.range' (s.server.runs.counter + 1) https.length).map runName := by
  intro https
  induction https with
  | nil => intro s _ _; exact ⟨s, [], rfl, (List.append_nil _).symm, nofun, rfl⟩
  | cons http https ih =>
      intro s hscreen ⟨hallowed, hadmits⟩
      obtain ⟨m, q, hm, hreqs, hendpoint, hhttp, hstarted, hcfg, hguard, hlimiter, hcounter⟩ :=
        exec_visit (hscreen http List.mem_cons_self) hallowed
      rw [← hcfg, ← hguard] at hscreen
      rw [← hlimiter] at hadmits
      obtain ⟨s', qs, hs', hreqs', hqs, hids⟩ :=
        ih (fun http' hmem => hscreen http' (List.mem_cons_of_mem _ hmem)) hadmits
      have hlen : m.requests.length = s.requests.length + 1 := by
        rw [hreqs, List.length_append, List.length_singleton]
      refine ⟨s', q :: qs, ?_, ?_, ?_, ?_⟩
      · exact exec_append_iff.mpr ⟨m, hm, hlen ▸ hs'⟩
      · rw [hreqs', hreqs, List.append_assoc]; rfl
      · intro q' hq'
        rcases List.mem_cons.mp hq' with rfl | hq'
        · exact ⟨hendpoint, hhttp ▸ List.mem_cons_self⟩
        · exact ⟨(hqs q' hq').1, List.mem_cons_of_mem _ (hqs q' hq').2⟩
      · rw [List.flatMap_cons, hstarted, hids, hcounter]
        rfl

/-- The two kinds of steps that call the limiter. -/
theorem ask_eq_some {s : Serving X} {a : ServingAction} {k : Ask} (h : s.ask a = some k) :
    (∃ i, a = .handle i k.time) ∨ ∃ http, a = .verify k.time http := by
  cases a with
  | handle i now =>
      unfold Serving.ask at h
      dsimp only at h
      split at h
      · cases h
      · split at h
        · cases h; exact .inl ⟨i, rfl⟩
        · cases h
  | verify now http => cases h; exact .inr ⟨http, rfl⟩
  | _ => cases h

/-- A step at one instant. -/
def ServingAction.At (t : Time) : ServingAction → Prop
  | .handle _ now => now = t
  | .verify now _ => now = t
  | _ => True

theorem visits_at (n : Nat) (https : List HttpRequest) : ∀ a ∈ visits n https, a.At 0 := by
  induction https generalizing n with
  | nil => exact nofun
  | cons http https ih =>
      intro a ha
      rcases List.mem_append.mp ha with ha | ha
      · rcases List.mem_cons.mp ha with rfl | ha
        · trivial
        · rw [List.eq_of_mem_replicate ha]; rfl
      · exact ih (n + 1) a ha

/-- The calls of steps at one instant. -/
theorem asks_at {t : Time} : ∀ (as : List ServingAction) (s : Serving X), (∀ a ∈ as, a.At t) →
    ∀ k ∈ asks s as, k.time = t := by
  intro as
  induction as with
  | nil => intro s _ k hk; exact absurd hk List.not_mem_nil
  | cons a as ih =>
      intro s hat k hk
      rcases List.mem_append.mp hk with hk | hk
      · have ha := hat a List.mem_cons_self
        rcases ask_eq_some (Option.mem_toList.mp hk) with ⟨i, rfl⟩ | ⟨http, rfl⟩
        · exact ha
        · exact ha
      · split at hk
        · exact ih _ (fun b hb => hat b (List.mem_cons_of_mem _ hb)) k hk
        · exact absurd hk List.not_mem_nil

/-- A request that started a run was asked for. -/
theorem Recorded.exists_ask {cfg : Config} {calls : List Ask} {s : Serving X} (h : Recorded calls s)
    (hadm : Admitted cfg s) {i : Nat} {q : Request} (hq : s.requests[i]? = some q)
    (hstarted : q.started ≠ []) : ∃ k ∈ calls, k.request = some i := by
  obtain ⟨d, hd, _⟩ := (hadm.fits i q hq).allowed_of_started hstarted
  have hmem : d ∈ (calls.filter fun k => k.request = some i).map Ask.answer := by
    rw [← h.decisions i, Serving.decisionsOf, hq]
    show d ∈ q.decisions
    rw [hd]
    exact List.mem_singleton_self d
  obtain ⟨k, hk, _⟩ := List.mem_map.mp hmem
  obtain ⟨hk, hi⟩ := List.mem_filter.mp hk
  exact ⟨k, hk, of_decide_eq_true hi⟩

/-- A request of the visitor for the default run, sent with a header of its choice. -/
def Visitor.request (v : Visitor) (h : Option String) : HttpRequest :=
  { body := [0x7B, 0x7D], xForwardedFor := viaProxy h v.addr, remoteAddr := "10.0.0.1:40000" }

theorem Visitor.clientKey_request (v : Visitor) (h : Option String) :
    clientKey (v.request h) = firstHop (viaProxy h v.addr) :=
  clientKey_eq (v.viaProxy_ne h)

/-- Five calls of one key and one of another are all admitted by a limiter that just started. -/
theorem admits_two_keys {key key' : String} (hne : key' ≠ key) :
    Admits 0 (newRateLimiter defaultRateLimitConfig) (List.replicate 5 key ++ [key']) := by
  have hfresh : ∀ k, (newRateLimiter defaultRateLimitConfig).levelAt k 0 = 5 := fun _ => levelAt_of_none rfl 0
  have hbuilt : Built defaultRateLimitConfig 0 (newRateLimiter defaultRateLimitConfig) :=
    newRateLimiter_built (by decide +kernel) (by decide +kernel) 0
  obtain ⟨rl, hrl, hothers, hrest⟩ := admits_burst key 5 hbuilt (by rw [hfresh]; norm_num)
  refine hrest [key'] ⟨?_, trivial⟩
  rw [allow_allowed hrl.ok.cap_pos, hothers key' hne, hfresh]
  norm_num

/-- **With two first hops** the visitor drains one bucket and takes a sixth run out of the other. -/
theorem Visitor.not_keepsBound {v : Visitor} {h h' : Option String} (hh : h ∈ v.sent) (hh' : h' ∈ v.sent)
    (hne : firstHop (viaProxy h' v.addr) ≠ firstHop (viaProxy h v.addr)) : ¬ v.KeepsBound := by
  intro hbound
  obtain ⟨server, hopen⟩ : ∃ server, newServer (sampleCodec sampleX) .ok defaultConfig ∅ = .ok server :=
    ⟨_, rfl⟩
  let https := List.replicate 5 (v.request h) ++ [v.request h']
  have hadmits : Admits 0 (Serving.new server).server.limiter (https.map clientKey) := by
    show Admits 0 server.limiter _
    rw [newServer_limiter hopen, List.map_append, List.map_replicate, List.map_singleton,
      v.clientKey_request, v.clientKey_request]
    exact admits_two_keys hne
  have hscreen : ∀ http ∈ https, ∀ kermitDisabled, screen sampleX (Serving.new server).server.cfg
      (Serving.new server).server.guard kermitDisabled http.body
        = .ok { mode := modeAnonymous, flow := flowGoldenEscrow } := by
    cases hopen
    intro http hmem kermitDisabled
    rcases List.mem_append.mp hmem with hmem | hmem
    · rw [List.eq_of_mem_replicate hmem]; rfl
    · rw [List.mem_singleton.mp hmem]; rfl
  obtain ⟨s, qs, hs, hreqs, hqs, hids⟩ := exec_visits https hscreen hadmits
  replace hs : exec Serving.step (Serving.new server) (visits 0 https) = some s := hs
  have hcounter : (Serving.new server).server.runs.counter = 0 := by cases hopen; rfl
  rw [hcounter] at hids
  have hadm : Admitted defaultConfig s :=
    exec_invariant (fun _ _ _ hi hs => hi.step (serving_step hs)) _ (admitted_new hopen) hs
  have hrec := recorded_exec (recorded_new server) _ hs
  have htime := asks_at (visits 0 https) (Serving.new server) (visits_at 0 https)
  have hsix := hbound sampleX _ _ _ _ server hopen rfl _ s hs ?_ 0 0 le_rfl
    ((List.range' 1 6).map runName) ?_ ?_
  · rw [List.length_map, List.length_range'] at hsix
    norm_num at hsix
  · -- all calls are made at the one instant
    refine List.pairwise_iff_forall_sublist.mpr fun {t u} hsub => ?_
    have hall : ∀ t ∈ (asks (Serving.new server) (visits 0 https)).map Ask.time, t = 0 := by
      intro t ht
      obtain ⟨k, hk, rfl⟩ := List.mem_map.mp ht
      exact htime k hk
    rw [hall t (hsub.subset (by simp)), hall u (hsub.subset (by simp))]
  · exact (List.nodup_range' 1).map (fun _ _ => runName_inj)
  · intro id hid
    have hid' : id ∈ qs.flatMap Request.started := hids ▸ hid
    obtain ⟨q, hq, hstarted⟩ := List.mem_flatMap.mp hid'
    obtain ⟨hendpoint, hhttp⟩ := hqs q hq
    obtain ⟨i, hi⟩ := List.mem_iff_getElem?.mp (hreqs ▸ List.mem_append_right _ hq : q ∈ s.requests)
    obtain ⟨k, hk, hki⟩ := hrec.exists_ask hadm hi (List.ne_nil_of_mem hstarted)
    refine ⟨i, q, k, hi, ⟨hendpoint, ?_⟩, hstarted, hk, hki, ?_, ?_⟩
    · rcases List.mem_append.mp hhttp with hmem | hmem
      · exact ⟨h, hh, by rw [List.eq_of_mem_replicate hmem]; rfl⟩
      · exact ⟨h', hh', by rw [List.mem_singleton.mp hmem]; rfl⟩
    · rw [htime k hk]
    · rw [htime k hk]

/-- **A visitor is held to one bucket exactly if all it sends has one first hop.** The first hop is the
    text before the first comma of what the visitor sent, or its own address if it sent no header. -/
theorem visitor_bounded_iff (v : Visitor) : v.KeepsBound ↔ ∀ h ∈ v.sent, ∀ h' ∈ v.sent,
    firstHop (viaProxy h v.addr) = firstHop (viaProxy h' v.addr) := by
  constructor
  · intro hbound h hh h' hh'
    by_contra hne
    exact Visitor.not_keepsBound hh hh' (Ne.symm hne) hbound
  · exact Visitor.keepsBound_of_one_hop

/-- A visitor that makes up a second address is not bounded. -/
theorem visitor_not_bounded : ¬ Visitor.KeepsBound
    { addr := "203.0.113.7", sent := {some "198.51.100.1", some "198.51.100.2"}, addr_ne := by decide } :=
  Visitor.not_keepsBound (.inl rfl) (.inr rfl) (by decide +kernel)

end Api
end InfrixPlayground
