import ScratchDb.Lib.Machine
import ScratchDb.Server.ClientHandler

/-!
# Sessions of many clients

Model of the threads of `HttpServer` in `src/server.cpp`, one for each
connection, in any interleaving: the map of the sessions under its mutex, and
the executor of each session under a mutex of its own. What an executor does is
a parameter; it may depend on the rest of the world, which the other sessions
change meanwhile.

All requests that name a session run in one executor, one after another, each
once, and each client gets the result of its own query.
-/

namespace ScratchDb

namespace HttpServer

open HttpMessages JsonResponses

/-- What runs queries: the executor of a new session, and what an execution makes of an executor,
with the world at its end. -/
structure ExecutorModel (Executor World : Type) where
  fresh : Executor
  execute : Executor → List Char → World → ServedResult × Executor

/-- An execution that is over (not in the source). -/
structure Executed (Thread World : Type) where
  thread : Thread
  query : List Char
  world : World
  result : ServedResult

structure Session (Thread Executor World : Type) where
  executor : Executor
  mutex : Option Thread
  /-- the last first (not in the source) -/
  history : List (Executed Thread World)

/-- Where a thread is in `handle_client`. Objects are told by the number of objects made before. -/
inductive Stage (Executor : Type) where
  | connected
  /-- wants `sessions_mutex_` -/
  | asks (sessionId query : List Char)
  /-- has `sessions_mutex_` -/
  | searches (sessionId query : List Char)
  /-- has `sessions_mutex_` still -/
  | found (sessionId query : List Char) (object : Nat)
  /-- wants the mutex of the session -/
  | waits (sessionId query : List Char) (object : Nat)
  /-- has the mutex of the session, and runs in its executor -/
  | executes (sessionId query : List Char) (object : Nat) (executor : Executor)
  /-- has the mutex of the session still -/
  | executed (sessionId query : List Char) (object : Nat) (result : ServedResult)
  | replies (reply : Reply)
  /-- the bytes that have left, and whether all have -/
  | ended (reply : Reply) (ok : Bool) (sent : List Char)
deriving DecidableEq

/-- What the threads share. -/
structure Shared (Thread Executor World : Type) where
  sessionsMutex : Option Thread
  sessions : List Char → Option Nat
  /-- how many objects have been made -/
  created : Nat
  objects : Nat → Session Thread Executor World
  /-- an exception has left a thread -/
  terminated : Bool
  /-- the session and the query that the request of a thread names (not in the source) -/
  asked : Thread → Option (List Char × List Char)

structure ServerState (Thread Executor World : Type) where
  shared : Shared Thread Executor World
  threads : Thread → Stage Executor

inductive ServerAction (World : Type) where
  | receive (received : List Received)
  | lockSessions
  | findSession
  | unlockSessions
  | lockSession
  | execute (world : World)
  | unlockSession
  | send (sendings : List Sending)

section Steps

variable {Thread Executor World : Type} [DecidableEq Thread]
  (model : ExecutorModel Executor World) (indexHtml : List Char)

namespace Shared

def start : Shared Thread Executor World where
  sessionsMutex := none
  sessions := fun _ => none
  created := 0
  objects := fun _ => { executor := model.fresh, mutex := none, history := [] }
  terminated := false
  asked := fun _ => none

variable (s : Shared Thread Executor World)

def setObject (object : Nat) (session : Session Thread Executor World) :
    Shared Thread Executor World :=
  { s with objects := Function.update s.objects object session }

/-- Take or release the mutex of a session. -/
def setMutex (object : Nat) (holder : Option Thread) : Shared Thread Executor World :=
  s.setObject object { (s.objects object) with mutex := holder }

/-- `read_request` and the branches on what it returns. -/
def receive (t : Thread) (received : List Received) : Shared Thread Executor World × Stage Executor :=
  match readRequest received with
  | .terminated => ({ s with terminated := true }, .connected)
  | .rejected => (s, .replies .badRequest)
  | .request request =>
    match taskOf request with
    | .reply reply => (s, .replies reply)
    | .query sessionId query =>
      ({ s with asked := Function.update s.asked t (some (sessionId, query)) },
        .asks sessionId query)

/-- The lookup of `session_for`. -/
def findSession (sessionId query : List Char) : Shared Thread Executor World × Stage Executor :=
  match s.sessions sessionId with
  | some object => (s, .found sessionId query object)
  | none =>
    ({ s with
        sessions := Function.update s.sessions sessionId (some s.created)
        created := s.created + 1 },
      .found sessionId query s.created)

/-- The end of an execution. -/
def finish (t : Thread) (sessionId query : List Char) (object : Nat) (executor : Executor)
    (world : World) : Shared Thread Executor World × Stage Executor :=
  let (result, after) := model.execute executor query world
  (s.setObject object
      { (s.objects object) with
        executor := after
        history := ⟨t, query, world, result⟩ :: (s.objects object).history },
    .executed sessionId query object result)

end Shared

/-- One step of a thread. The mutexes make it wait. -/
def threadNext (t : Thread) (s : Shared Thread Executor World) :
    Stage Executor → ServerAction World → Option (Shared Thread Executor World × Stage Executor)
  | .connected, .receive received => some (s.receive t received)
  | .asks sessionId query, .lockSessions =>
    if s.sessionsMutex = none then
      some ({ s with sessionsMutex := some t }, .searches sessionId query)
    else none
  | .searches sessionId query, .findSession => some (s.findSession sessionId query)
  | .found sessionId query object, .unlockSessions =>
    some ({ s with sessionsMutex := none }, .waits sessionId query object)
  | .waits sessionId query object, .lockSession =>
    if (s.objects object).mutex = none then
      some (s.setMutex object (some t),
        .executes sessionId query object (s.objects object).executor)
    else none
  | .executes sessionId query object executor, .execute world =>
    some (s.finish model t sessionId query object executor world)
  | .executed sessionId _ object result, .unlockSession =>
    some (s.setMutex object none, .replies (.result result sessionId))
  | .replies reply, .send sendings =>
    let (ok, sent) := sendAll sendings (reply.bytes indexHtml)
    some (s, .ended reply ok sent)
  | _, _ => none

/-- The server, until an exception ends it. -/
def serverMachine : Machine (ServerState Thread Executor World) (Thread × ServerAction World) where
  init := { shared := .start model, threads := fun _ => .connected }
  next s a :=
    if s.shared.terminated then none
    else
      (threadNext model indexHtml a.1 s.shared (s.threads a.1) a.2).map fun (shared, stage) =>
        { shared, threads := Function.update s.threads a.1 stage }

end Steps

/-! ## What holds in every run -/

namespace Stage

variable {Executor : Type}

/-- The session and the query of a request that is being served. -/
def names : Stage Executor → Option (List Char × List Char)
  | .asks sessionId query => some (sessionId, query)
  | .searches sessionId query => some (sessionId, query)
  | .found sessionId query _ => some (sessionId, query)
  | .waits sessionId query _ => some (sessionId, query)
  | .executes sessionId query _ _ => some (sessionId, query)
  | .executed sessionId query _ _ => some (sessionId, query)
  | _ => none

/-- The object that a thread points to, and the session it is for. -/
def uses : Stage Executor → Option (List Char × Nat)
  | .found sessionId _ object => some (sessionId, object)
  | .waits sessionId _ object => some (sessionId, object)
  | .executes sessionId _ object _ => some (sessionId, object)
  | .executed sessionId _ object _ => some (sessionId, object)
  | _ => none

/-- The object whose mutex a thread has. -/
def holds : Stage Executor → Option Nat
  | .executes _ _ object _ => some object
  | .executed _ _ object _ => some object
  | _ => none

/-- The executor that an execution runs in, as it was at its beginning. -/
def runs : Stage Executor → Option (Nat × Executor)
  | .executes _ _ object executor => some (object, executor)
  | _ => none

def hasSessions : Stage Executor → Bool
  | .searches .. => true
  | .found .. => true
  | _ => false

/-- The result of the execution, once it is over. -/
def outcome : Stage Executor → Option (ServedResult × List Char)
  | .executed sessionId _ _ result => some (result, sessionId)
  | .replies (.result result sessionId) => some (result, sessionId)
  | .ended (.result result sessionId) _ _ => some (result, sessionId)
  | _ => none

end Stage

section Invariant

variable {Thread Executor World : Type}

/-- The executions of a history, the last first, one after another from a fresh executor. -/
def Serial (model : ExecutorModel Executor World) : List (Executed Thread World) → Executor → Prop
  | [], executor => executor = model.fresh
  | x :: earlier, executor => ∃ before, Serial model earlier before ∧
      model.execute before x.query x.world = (x.result, executor)

/-- The sessions have objects of their own, whose executors have run one query after another. -/
structure SerialSessions (model : ExecutorModel Executor World) (s : Shared Thread Executor World) :
    Prop where
  made : ∀ sessionId object, s.sessions sessionId = some object → object < s.created
  distinct : ∀ sessionId sessionId' object, s.sessions sessionId = some object →
    s.sessions sessionId' = some object → sessionId = sessionId'
  serial : ∀ object, Serial model (s.objects object).history (s.objects object).executor
  /-- no request is executed twice -/
  once : ∀ object, ((s.objects object).history.map Executed.thread).Nodup

/-- What holds of a thread at its stage. -/
structure Served (s : Shared Thread Executor World) (t : Thread) (stage : Stage Executor) : Prop where
  uses : ∀ sessionId object, stage.uses = some (sessionId, object) →
    s.sessions sessionId = some object
  asked : ∀ request, stage.names = some request → s.asked t = some request
  sessionsMutex : stage.hasSessions = true → s.sessionsMutex = some t
  mutex : ∀ object, stage.holds = some object → (s.objects object).mutex = some t
  /-- while an execution runs, its executor is not touched -/
  untouched : ∀ object executor, stage.runs = some (object, executor) →
    (s.objects object).executor = executor
  /-- an execution for the thread is of its query, in its session, and gave its result -/
  history : ∀ object, ∀ x ∈ (s.objects object).history, x.thread = t → ∃ sessionId,
    s.sessions sessionId = some object ∧ s.asked t = some (sessionId, x.query) ∧
      stage.outcome = some (x.result, sessionId)
  /-- a result is the one of an execution for the thread -/
  outcome : ∀ result sessionId, stage.outcome = some (result, sessionId) →
    ∃ object, s.sessions sessionId = some object ∧
      ∃ x ∈ (s.objects object).history, x.thread = t ∧ x.result = result

variable {s s' : Shared Thread Executor World} {t u : Thread} {stage stage' : Stage Executor}

/-- A step of another thread that keeps the map of sessions, and the objects that this thread
looks at. -/
theorem Served.frame (h : Served s t stage)
    (hsessions : ∀ sessionId object, s.sessions sessionId = some object →
      s'.sessions sessionId = some object)
    (hasked : s'.asked t = s.asked t)
    (hmutex : stage.hasSessions = true → s'.sessionsMutex = s.sessionsMutex)
    (hholds : ∀ object, stage.holds = some object → s'.objects object = s.objects object)
    (hhistory : ∀ object x, x.thread = t →
      (x ∈ (s'.objects object).history ↔ x ∈ (s.objects object).history)) :
    Served s' t stage where
  uses sessionId object hu := hsessions sessionId object (h.uses sessionId object hu)
  asked request hr := hasked.trans (h.asked request hr)
  sessionsMutex hs := (hmutex hs).trans (h.sessionsMutex hs)
  mutex object ho := by
    rw [hholds object ho]
    exact h.mutex object ho
  untouched object executor hr := by
    have hholding : stage.holds = some object := by
      cases stage <;> cases hr
      rfl
    rw [hholds object hholding]
    exact h.untouched object executor hr
  history object x hx ht := by
    rcases h.history object x ((hhistory object x ht).mp hx) ht with
      ⟨sessionId, hsession, hrequest, hresult⟩
    exact ⟨sessionId, hsessions sessionId object hsession, hasked.trans hrequest, hresult⟩
  outcome result sessionId ho := by
    rcases h.outcome result sessionId ho with ⟨object, hsession, x, hx, ht, hresult⟩
    exact ⟨object, hsessions sessionId object hsession, x, (hhistory object x ht).mpr hx, ht, hresult⟩

/-- A thread that has no result yet is in no history. -/
theorem Served.not_mem_history (h : Served s t stage) (hstage : stage.outcome = none)
    (object : Nat) : t ∉ (s.objects object).history.map Executed.thread := by
  intro hmem
  rcases List.mem_map.mp hmem with ⟨x, hx, ht⟩
  rcases h.history object x hx ht with ⟨sessionId, -, -, hresult⟩
  rw [hstage] at hresult
  cases hresult

/-- A thread that moves on within what it has. -/
theorem Served.move (h : Served s t stage) (huses : ∀ p, stage'.uses = some p → stage.uses = some p)
    (hnames : ∀ p, stage'.names = some p → stage.names = some p)
    (hsessions : stage'.hasSessions = true → stage.hasSessions = true)
    (hholds : ∀ p, stage'.holds = some p → stage.holds = some p)
    (hruns : ∀ p, stage'.runs = some p → stage.runs = some p)
    (houtcome : stage'.outcome = stage.outcome) : Served s t stage' where
  uses sessionId object hu := h.uses sessionId object (huses _ hu)
  asked request hr := h.asked request (hnames _ hr)
  sessionsMutex hs := h.sessionsMutex (hsessions hs)
  mutex object ho := h.mutex object (hholds _ ho)
  untouched object executor hr := h.untouched object executor (hruns _ hr)
  history object x hx ht := by
    rw [houtcome]
    exact h.history object x hx ht
  outcome result sessionId ho := h.outcome result sessionId (houtcome ▸ ho)

/-! ## Steps -/

/-- The sessions are served while the threads are at these stages. -/
structure AllServed (model : ExecutorModel Executor World) (s : Shared Thread Executor World)
    (threads : Thread → Stage Executor) : Prop where
  sessions : SerialSessions model s
  threads : ∀ t, Served s t (threads t)

/-- Without an executor there is no result. -/
theorem taskOf_reply {request : HttpRequest} {r : Reply} (hr : taskOf request = .reply r) :
    (.replies r : Stage Executor).outcome = none := by
  rw [taskOf] at hr
  split at hr
  · cases hr
    rfl
  split at hr
  · cases hr
    rfl
  split at hr
  · cases hr
    rfl
  split at hr
  · split at hr
    · cases hr
      rfl
    · dsimp only at hr
      split at hr
      · cases hr
      · cases hr
        rfl
  · cases hr
    rfl

section Step

variable [DecidableEq Thread] {model : ExecutorModel Executor World}
  {threads : Thread → Stage Executor} (h : AllServed model s threads)
include h

/-- A step of `t`, from what it does to its own stage and to the other threads. -/
theorem AllServed.step (hsessions : SerialSessions model s') (hself : Served s' t stage')
    (hothers : ∀ u, u ≠ t → Served s u (threads u) → Served s' u (threads u)) :
    AllServed model s' (Function.update threads t stage') := by
  refine ⟨hsessions, fun u => ?_⟩
  by_cases hu : u = t
  · subst hu
    rw [Function.update_self]
    exact hself
  · rw [Function.update_of_ne hu]
    exact hothers u hu (h.threads u)

/-- A step that changes only the stage of the thread. -/
theorem AllServed.move (huses : ∀ p, stage'.uses = some p → (threads t).uses = some p)
    (hnames : ∀ p, stage'.names = some p → (threads t).names = some p)
    (hsessions : stage'.hasSessions = true → (threads t).hasSessions = true)
    (hholds : ∀ p, stage'.holds = some p → (threads t).holds = some p)
    (hruns : ∀ p, stage'.runs = some p → (threads t).runs = some p)
    (houtcome : stage'.outcome = (threads t).outcome) :
    AllServed model s (Function.update threads t stage') :=
  h.step h.sessions ((h.threads t).move huses hnames hsessions hholds hruns houtcome)
    fun _ _ hu => hu

theorem AllServed.receive (hstage : threads t = .connected) (received : List Received) :
    AllServed model (s.receive t received).1
      (Function.update threads t (s.receive t received).2) := by
  have hreply : ∀ r : Reply, (.replies r : Stage Executor).outcome = none →
      AllServed model s (Function.update threads t (.replies r)) := by
    intro r hr
    refine h.move ?_ ?_ ?_ ?_ ?_ ?_
    · intro _ hp
      cases hp
    · intro _ hp
      cases hp
    · intro hp
      cases hp
    · intro _ hp
      cases hp
    · intro _ hp
      cases hp
    · rw [hstage]
      exact hr
  rw [Shared.receive]
  cases readRequest received with
  | terminated =>
    have hshared : ∀ u, Served { s with terminated := true } u (threads u) := by
      intro u
      exact (h.threads u).frame (fun _ _ hs => hs) rfl (fun _ => rfl) (fun _ _ => rfl)
        fun _ _ _ => Iff.rfl
    have hself := hshared t
    rw [hstage] at hself
    exact h.step ⟨h.sessions.made, h.sessions.distinct, h.sessions.serial, h.sessions.once⟩ hself
      fun u _ _ => hshared u
  | rejected => exact hreply .badRequest rfl
  | request request =>
    dsimp only
    cases htask : taskOf request with
    | reply r => exact hreply r (taskOf_reply htask)
    | query sessionId query =>
      have ht := hstage ▸ h.threads t
      refine h.step ⟨h.sessions.made, h.sessions.distinct, h.sessions.serial, h.sessions.once⟩
        ⟨?_, ?_, ?_, ?_, ?_, ?_, ?_⟩ ?_
      · intro _ _ hu
        cases hu
      · intro _ hr
        cases hr
        exact Function.update_self ..
      · intro hs
        cases hs
      · intro _ ho
        cases ho
      · intro _ _ hr
        cases hr
      · intro object x hx hthread
        rcases ht.history object x hx hthread with ⟨_, -, -, hresult⟩
        cases hresult
      · intro _ _ ho
        cases ho
      · intro u hu hserved
        exact hserved.frame (fun _ _ hs => hs) (Function.update_of_ne hu ..) (fun _ => rfl)
          (fun _ _ => rfl) fun _ _ _ => Iff.rfl

/-- Taking `sessions_mutex_`, or giving it back. -/
theorem AllServed.setSessionsMutex (holder : Option Thread)
    (hself : Served { s with sessionsMutex := holder } t stage')
    (hothers : ∀ u, u ≠ t → (threads u).hasSessions = false) :
    AllServed model { s with sessionsMutex := holder } (Function.update threads t stage') := by
  refine h.step ⟨h.sessions.made, h.sessions.distinct, h.sessions.serial, h.sessions.once⟩ hself ?_
  intro u hu hserved
  refine hserved.frame (fun _ _ hs => hs) rfl ?_ (fun _ _ => rfl) fun _ _ _ => Iff.rfl
  intro hs
  rw [hothers u hu] at hs
  cases hs

theorem AllServed.lockSessions {sessionId query : List Char}
    (hstage : threads t = .asks sessionId query) (hfree : s.sessionsMutex = none) :
    AllServed model { s with sessionsMutex := some t }
      (Function.update threads t (.searches sessionId query)) := by
  have ht := hstage ▸ h.threads t
  refine h.setSessionsMutex (some t) ⟨?_, ht.asked, fun _ => rfl, ?_, ?_, ht.history, ?_⟩ ?_
  · intro _ _ hu
    cases hu
  · intro _ ho
    cases ho
  · intro _ _ hr
    cases hr
  · intro _ _ ho
    cases ho
  · intro u _
    by_contra hs
    rw [Bool.not_eq_false] at hs
    have hheld := (h.threads u).sessionsMutex hs
    rw [hfree] at hheld
    cases hheld

theorem AllServed.unlockSessions {sessionId query : List Char} {object : Nat}
    (hstage : threads t = .found sessionId query object) :
    AllServed model { s with sessionsMutex := none }
      (Function.update threads t (.waits sessionId query object)) := by
  have ht := hstage ▸ h.threads t
  refine h.setSessionsMutex none ⟨ht.uses, ht.asked, ?_, ?_, ?_, ht.history, ?_⟩ ?_
  · intro hs
    cases hs
  · intro _ ho
    cases ho
  · intro _ _ hr
    cases hr
  · intro _ _ ho
    cases ho
  · intro u hu
    by_contra hs
    rw [Bool.not_eq_false] at hs
    have hmine := ht.sessionsMutex rfl
    rw [(h.threads u).sessionsMutex hs, Option.some_inj] at hmine
    exact hu hmine

/-- The session of an id is found, or made where there is none. -/
theorem AllServed.findSession {sessionId query : List Char}
    (hstage : threads t = .searches sessionId query) :
    AllServed model (s.findSession sessionId query).1
      (Function.update threads t (s.findSession sessionId query).2) := by
  have ht := hstage ▸ h.threads t
  rw [Shared.findSession]
  cases hsession : s.sessions sessionId with
  | some object =>
    refine h.step h.sessions ⟨?_, ht.asked, ht.sessionsMutex, ?_, ?_, ht.history, ?_⟩
      fun _ _ hu => hu
    · intro _ _ hu
      cases hu
      exact hsession
    · intro _ ho
      cases ho
    · intro _ _ hr
      cases hr
    · intro _ _ ho
      cases ho
  | none =>
    -- the new object is behind all others
    have hkept : ∀ sessionId' object, s.sessions sessionId' = some object →
        Function.update s.sessions sessionId (some s.created) sessionId' = some object := by
      intro sessionId' object hs
      rw [Function.update_of_ne]
      · exact hs
      · rintro rfl
        rw [hsession] at hs
        cases hs
    have hsessions : SerialSessions model
        { s with
          sessions := Function.update s.sessions sessionId (some s.created)
          created := s.created + 1 } := by
      refine ⟨?_, ?_, h.sessions.serial, h.sessions.once⟩
      · intro sessionId' object hs
        dsimp only at hs
        by_cases hid : sessionId' = sessionId
        · subst hid
          rw [Function.update_self, Option.some_inj] at hs
          exact hs ▸ Nat.lt_succ_self _
        · rw [Function.update_of_ne hid] at hs
          exact Nat.lt_succ_of_lt (h.sessions.made sessionId' object hs)
      · intro sessionId₁ sessionId₂ object h₁ h₂
        dsimp only at h₁ h₂
        have hnew : ∀ sessionId', s.sessions sessionId' ≠ some s.created := by
          intro sessionId' hs
          exact absurd (h.sessions.made sessionId' s.created hs) (Nat.lt_irrefl _)
        by_cases hid₁ : sessionId₁ = sessionId
        · subst hid₁
          rw [Function.update_self, Option.some_inj] at h₁
          by_contra hne
          rw [Function.update_of_ne (Ne.symm hne), ← h₁] at h₂
          exact hnew sessionId₂ h₂
        · rw [Function.update_of_ne hid₁] at h₁
          by_cases hid₂ : sessionId₂ = sessionId
          · subst hid₂
            rw [Function.update_self, Option.some_inj] at h₂
            rw [← h₂] at h₁
            exact absurd h₁ (hnew sessionId₁)
          · rw [Function.update_of_ne hid₂] at h₂
            exact h.sessions.distinct sessionId₁ sessionId₂ object h₁ h₂
    refine h.step hsessions ⟨?_, ht.asked, ht.sessionsMutex, ?_, ?_, ?_, ?_⟩ ?_
    · intro _ _ hu
      cases hu
      exact Function.update_self ..
    · intro _ ho
      cases ho
    · intro _ _ hr
      cases hr
    · intro object x hx hthread
      rcases ht.history object x hx hthread with ⟨_, -, -, hresult⟩
      cases hresult
    · intro _ _ ho
      cases ho
    · intro u _ hserved
      exact hserved.frame hkept rfl (fun _ => rfl) (fun _ _ => rfl) fun _ _ _ => Iff.rfl

omit [DecidableEq Thread] h in
theorem objects_setObject (s : Shared Thread Executor World) (object k : Nat)
    (session : Session Thread Executor World) :
    (s.setObject object session).objects k = if k = object then session else s.objects k :=
  Function.update_apply ..

/-- A step at an object of which no other thread has the mutex. -/
theorem AllServed.setObject {object : Nat} {session : Session Thread Executor World}
    (hself : Served (s.setObject object session) t stage')
    (hserial : Serial model session.history session.executor)
    (honce : (session.history.map Executed.thread).Nodup)
    (hothers : ∀ u, u ≠ t → (threads u).holds ≠ some object)
    (hhistory : ∀ x, x.thread ≠ t → (x ∈ session.history ↔ x ∈ (s.objects object).history)) :
    AllServed model (s.setObject object session) (Function.update threads t stage') := by
  refine h.step ⟨h.sessions.made, h.sessions.distinct, ?_, ?_⟩ hself ?_
  · intro k
    rw [objects_setObject]
    split
    · exact hserial
    · exact h.sessions.serial k
  · intro k
    rw [objects_setObject]
    split
    · exact honce
    · exact h.sessions.once k
  · intro u hu hserved
    refine hserved.frame (fun _ _ hs => hs) rfl (fun _ => rfl) ?_ ?_
    · intro k hk
      rw [objects_setObject, if_neg]
      rintro rfl
      exact hothers u hu hk
    · intro k x hx
      rw [objects_setObject]
      split
      · rename_i hk
        rw [hk]
        exact hhistory x (hx ▸ hu)
      · exact Iff.rfl

omit [DecidableEq Thread] in
/-- The thread that has a mutex is alone. -/
theorem AllServed.alone {object : Nat} (ht : (threads t).holds = some object) (hu : u ≠ t) :
    (threads u).holds ≠ some object := by
  intro hholds
  have hmine := (h.threads t).mutex object ht
  rw [(h.threads u).mutex object hholds, Option.some_inj] at hmine
  exact hu hmine

/-- The mutex of a session is taken, and its executor is as it was left. -/
theorem AllServed.lockSession {sessionId query : List Char} {object : Nat}
    (hstage : threads t = .waits sessionId query object)
    (hfree : (s.objects object).mutex = none) :
    AllServed model (s.setMutex object (some t))
      (Function.update threads t
        (.executes sessionId query object (s.objects object).executor)) := by
  have ht := hstage ▸ h.threads t
  refine h.setObject ⟨ht.uses, ht.asked, ?_, ?_, ?_, ?_, ?_⟩ (h.sessions.serial object)
    (h.sessions.once object) ?_ fun _ _ => Iff.rfl
  · intro hs
    cases hs
  · intro k hk
    cases hk
    rw [objects_setObject, if_pos rfl]
  · intro k executor hr
    cases hr
    rw [objects_setObject, if_pos rfl]
  · intro k x hx hthread
    have hx' : x ∈ (s.objects k).history := by
      rw [objects_setObject] at hx
      split at hx
      · rename_i hk
        rw [hk]
        exact hx
      · exact hx
    rcases ht.history k x hx' hthread with ⟨_, -, -, hresult⟩
    cases hresult
  · intro _ _ ho
    cases ho
  · intro u hu hholds
    have hheld := (h.threads u).mutex object hholds
    rw [hfree] at hheld
    cases hheld

/-- The end of an execution: one more in the history, from the executor as it was left. -/
theorem AllServed.finish {sessionId query : List Char} {object : Nat} {executor : Executor}
    (hstage : threads t = .executes sessionId query object executor) (world : World) :
    AllServed model (s.finish model t sessionId query object executor world).1
      (Function.update threads t (s.finish model t sessionId query object executor world).2) := by
  have ht := hstage ▸ h.threads t
  have hbefore := ht.untouched object executor rfl
  have hsession := ht.uses sessionId object rfl
  have hasked := ht.asked (sessionId, query) rfl
  have hnew := ht.not_mem_history rfl
  have hholds : (threads t).holds = some object := by rw [hstage]; rfl
  rw [Shared.finish]
  refine h.setObject ⟨ht.uses, ht.asked, ?_, ?_, ?_, ?_, ?_⟩ ?_ ?_ ?_ ?_
  · intro hs
    cases hs
  · intro k hk
    cases hk
    rw [objects_setObject, if_pos rfl]
    exact ht.mutex object rfl
  · intro _ _ hr
    cases hr
  · intro k x hx hthread
    rw [objects_setObject] at hx
    split at hx
    · rename_i hk
      rcases List.mem_cons.mp hx with rfl | hx
      · exact ⟨sessionId, hk ▸ hsession, hasked, rfl⟩
      · exact absurd (List.mem_map.mpr ⟨x, hx, hthread⟩) (hnew object)
    · exact absurd (List.mem_map.mpr ⟨x, hx, hthread⟩) (hnew k)
  · intro result sessionId' ho
    cases ho
    refine ⟨object, hsession, ⟨t, query, world, _⟩, ?_, rfl, rfl⟩
    rw [objects_setObject, if_pos rfl]
    exact List.mem_cons_self
  · exact ⟨executor, hbefore ▸ h.sessions.serial object, rfl⟩
  · exact List.nodup_cons.mpr ⟨hnew object, h.sessions.once object⟩
  · intro u hu
    exact h.alone hholds hu
  · intro x hx
    rw [List.mem_cons]
    constructor
    · rintro (rfl | hmem)
      · exact absurd rfl hx
      · exact hmem
    · exact Or.inr

/-- The mutex of a session is given back. -/
theorem AllServed.unlockSession {sessionId query : List Char} {object : Nat} {result : ServedResult}
    (hstage : threads t = .executed sessionId query object result) :
    AllServed model (s.setMutex object none)
      (Function.update threads t (.replies (.result result sessionId))) := by
  have ht := hstage ▸ h.threads t
  have hhistory : ∀ k, ((s.setMutex object none).objects k).history = (s.objects k).history := by
    intro k
    rw [Shared.setMutex, objects_setObject]
    split
    · rename_i hk
      rw [hk]
    · rfl
  have hholds : (threads t).holds = some object := by rw [hstage]; rfl
  refine h.setObject ⟨?_, ?_, ?_, ?_, ?_, ?_, ?_⟩ (h.sessions.serial object)
    (h.sessions.once object) ?_ fun _ _ => Iff.rfl
  · intro _ _ hu
    cases hu
  · intro _ hr
    cases hr
  · intro hs
    cases hs
  · intro _ hk
    cases hk
  · intro _ _ hr
    cases hr
  · intro k x hx hthread
    exact ht.history k x (hhistory k ▸ hx) hthread
  · intro result' sessionId' ho
    rcases ht.outcome result' sessionId' ho with ⟨k, hsession, x, hx, hrest⟩
    exact ⟨k, hsession, x, (hhistory k).symm ▸ hx, hrest⟩
  · intro u hu
    exact h.alone hholds hu

theorem AllServed.ended {reply : Reply} (hstage : threads t = .replies reply) (ok : Bool)
    (sent : List Char) : AllServed model s (Function.update threads t (.ended reply ok sent)) := by
  refine h.move ?_ ?_ ?_ ?_ ?_ ?_
  · intro _ hp
    cases hp
  · intro _ hp
    cases hp
  · intro hp
    cases hp
  · intro _ hp
    cases hp
  · intro _ hp
    cases hp
  · rw [hstage]
    cases reply <;> rfl

/-- Every step of every thread. -/
theorem AllServed.next {indexHtml : List Char} {a : ServerAction World}
    (hnext : threadNext model indexHtml t s (threads t) a = some (s', stage')) :
    AllServed model s' (Function.update threads t stage') := by
  unfold threadNext at hnext
  split at hnext
  · rename_i received hstage
    have hstep := h.receive hstage received
    rwa [Option.some_inj.mp hnext] at hstep
  · rename_i hstage
    split at hnext
    · rename_i hfree
      cases hnext
      exact h.lockSessions hstage hfree
    · cases hnext
  · rename_i hstage
    have hstep := h.findSession hstage
    rwa [Option.some_inj.mp hnext] at hstep
  · rename_i hstage
    cases hnext
    exact h.unlockSessions hstage
  · rename_i hstage
    split at hnext
    · rename_i hfree
      cases hnext
      exact h.lockSession hstage hfree
    · cases hnext
  · rename_i hstage
    cases hnext
    exact h.finish hstage _
  · rename_i hstage
    cases hnext
    exact h.unlockSession hstage
  · rename_i hstage
    cases hnext
    exact h.ended hstage _ _
  · cases hnext

end Step

/-! ## Runs -/

section Runs

variable [DecidableEq Thread] {model : ExecutorModel Executor World} {indexHtml : List Char}
  {state : ServerState Thread Executor World}

omit [DecidableEq Thread] in
theorem allServed_start :
    AllServed model (.start model : Shared Thread Executor World) fun _ => .connected := by
  have hsessions : SerialSessions model (.start model : Shared Thread Executor World) := by
    refine ⟨?_, ?_, fun _ => rfl, fun _ => List.nodup_nil⟩
    · intro _ _ h
      cases h
    · intro _ _ _ h
      cases h
  refine ⟨hsessions, fun t => ?_⟩
  constructor
  · intro _ _ h
    cases h
  · intro _ h
    cases h
  · intro h
    cases h
  · intro _ h
    cases h
  · intro _ _ h
    cases h
  · intro _ _ h
    cases h
  · intro _ _ h
    cases h

/-- In every interleaving of the threads: the queries of a session run one after another in the
executor of that session, each request once, and no thread touches an executor in which another
one runs. -/
theorem allServed_of_reachable (h : (serverMachine model indexHtml).Reachable state) :
    AllServed model state.shared state.threads := by
  apply Machine.Reaches.invariant allServed_start _ h
  rintro s s' ⟨t, a⟩ hs - hnext
  dsimp only [serverMachine] at hnext
  split at hnext
  · cases hnext
  · rcases Option.map_eq_some_iff.mp hnext with ⟨⟨shared, stage⟩, hstep, rfl⟩
    exact hs.next hstep

/-- What has left has been sent for the reply. -/
theorem sent_of_reachable (h : (serverMachine model indexHtml).Reachable state) :
    ∀ t reply ok sent, state.threads t = .ended reply ok sent →
      ∃ sendings, sendAll sendings (reply.bytes indexHtml) = (ok, sent) := by
  refine Machine.Reaches.invariant (I := fun state => ∀ t reply ok sent,
    state.threads t = .ended reply ok sent →
      ∃ sendings, sendAll sendings (reply.bytes indexHtml) = (ok, sent)) ?_ ?_ h
  · intro _ _ _ _ hended
    cases hended
  rintro s s' ⟨t, a⟩ hs - hnext u reply ok sent hended
  dsimp only [serverMachine] at hnext
  split at hnext
  · cases hnext
  rcases Option.map_eq_some_iff.mp hnext with ⟨⟨shared, stage⟩, hstep, rfl⟩
  dsimp only at hended
  by_cases hu : u = t
  · subst hu
    rw [Function.update_self] at hended
    subst hended
    unfold threadNext at hstep
    split at hstep
    · rename_i received _
      have heq := congrArg Prod.snd (Option.some_inj.mp hstep)
      rw [Shared.receive] at heq
      split at heq
      · cases heq
      · cases heq
      · split at heq
        · cases heq
        · cases heq
    · split at hstep
      · cases hstep
      · cases hstep
    · have heq := congrArg Prod.snd (Option.some_inj.mp hstep)
      rw [Shared.findSession] at heq
      split at heq
      · cases heq
      · cases heq
    · cases hstep
    · split at hstep
      · cases hstep
      · cases hstep
    · cases hstep
    · cases hstep
    · rename_i sendings _
      cases hstep
      exact ⟨sendings, rfl⟩
    · cases hstep
  · rw [Function.update_of_ne hu] at hended
    exact hs u reply ok sent hended

/-- A client whose query has been run reads the result in JSON, or nothing where the connection
was cut; and the result is that of its query, where it stands in the history of its session. -/
theorem client_reads_result (h : (serverMachine model indexHtml).Reachable state) {t : Thread}
    {sessionId : List Char} {result : ServedResult} {ok : Bool} {sent : List Char}
    (hended : state.threads t = .ended (.result result sessionId) ok sent)
    (hbody : (queryResultToJson result (String.ofList sessionId)).length < 2 ^ 64) :
    (∃ body, readResponse sent =
        (if ok then some (if result.isOk then 200 else 400, body) else none) ∧
      Json.read body = some (resultJson result (String.ofList sessionId))) ∧
    ∃ object, state.shared.sessions sessionId = some object ∧
      ∃ x ∈ (state.shared.objects object).history, x.thread = t ∧ x.result = result ∧
        state.shared.asked t = some (sessionId, x.query) := by
  constructor
  · rcases sent_of_reachable h t _ ok sent hended with ⟨sendings, hsent⟩
    have hread := @readResponse_reply indexHtml (.result result sessionId) hbody sendings
    rw [hsent] at hread
    exact ⟨_, hread, read_queryResultToJson result _⟩
  · have ht := (allServed_of_reachable h).threads t
    rw [hended] at ht
    rcases ht.outcome result sessionId rfl with ⟨object, hsession, x, hx, hthread, hresult⟩
    rcases ht.history object x hx hthread with ⟨_, -, hasked, hresult'⟩
    cases hresult'
    exact ⟨object, hsession, x, hx, hthread, rfl, hasked⟩

end Runs

end Invariant

/-! ## Two clients of one session -/

/-- An executor that counts its queries. -/
def counting : ExecutorModel Nat Unit where
  fresh := 0
  execute n query _ :=
    ({ rowCount := n + 1, message := String.ofList query }, n + 1)

/-- The query `go` in the session `a`. -/
def goRequest : List Received :=
  [.bytes ⟨("POST /query HTTP/1.1\r\nContent-Length: 31\r\n\r\n" ++
    "\x7b\"query\":\"go\",\"session_id\":\"a\"\x7d").toList, by decide +kernel⟩]

/-- The two requests in turns; the connection of the second client fails. -/
def goActions : List (Bool × ServerAction Unit) :=
  [(true, .receive goRequest), (false, .receive goRequest), (true, .lockSessions),
    (true, .findSession), (true, .unlockSessions), (false, .lockSessions), (true, .lockSession),
    (false, .findSession), (false, .unlockSessions), (true, .execute ()), (true, .unlockSession),
    (false, .lockSession), (true, .send [.taken 4000]), (false, .execute ()),
    (false, .unlockSession), (false, .send [.taken 50, .failed])]

def goResult (n : Nat) : ServedResult := { rowCount := n, message := "go" }

def goBytes (n : Nat) : List Char := Reply.bytes [] (.result (goResult n) ['a'])

/-- Both queries are run in one executor. The first client gets its result, the second only the
front of it. -/
theorem goActions_run :
    ((serverMachine counting []).run goActions).map (fun state => (state.threads true, state.threads false)) =
      some (.ended (.result (goResult 1) ['a']) true (goBytes 1),
        .ended (.result (goResult 2) ['a']) false ((goBytes 2).take 50)) := by
  decide +kernel

/-- The sessions after this run. -/
theorem allServed_of_reachable_go : ∃ state, (serverMachine counting []).run goActions = some state ∧
    AllServed counting state.shared state.threads := by
  rcases Option.map_eq_some_iff.mp goActions_run with ⟨state, hrun, -⟩
  exact ⟨state, hrun, allServed_of_reachable (Machine.reachable_of_run hrun)⟩

/-- What the first client reads. -/
theorem client_reads_result_go : ∃ state, (serverMachine counting []).run goActions = some state ∧
    (∃ body, readResponse (goBytes 1) = some (200, body) ∧
      Json.read body = some (resultJson (goResult 1) "a")) ∧
    ∃ object, state.shared.sessions ['a'] = some object ∧
      ∃ x ∈ (state.shared.objects object).history, x.thread = true ∧ x.result = goResult 1 ∧
        state.shared.asked true = some (['a'], x.query) := by
  rcases Option.map_eq_some_iff.mp goActions_run with ⟨state, hrun, hthreads⟩
  exact ⟨state, hrun, client_reads_result (Machine.reachable_of_run hrun)
    (Prod.ext_iff.mp hthreads).1 (by decide +kernel)⟩

end HttpServer

end ScratchDb
