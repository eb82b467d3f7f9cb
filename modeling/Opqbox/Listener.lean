import Opqbox.Scraper
import Opqbox.PySettings

/-!
`ZmqListener`: the loop of the acquisition daemon over its REP socket, and which
requests it serves (`Served`). Connecting the socket is not modelled.
-/
namespace Opqbox.Listener
open Opqbox.Messages Opqbox.Scraper Opqbox.PySettings

variable {Buffer : Type}

structure ZmqListener (Buffer : Type) where
  redis : Redis Buffer
  id : PyObject

/-- The constructor, for the fields that `run` uses. -/
def ZmqListener.new (settings : Settings) (redis : Redis Buffer) : ZmqListener Buffer where
  redis := redis
  id :=
    match settings.getKey "box_id".toList with
    | some s => .str s
    | none => .none

/-- What a handler sends, and its value or the exception that it raises. -/
abbrev Handled (Buffer : Type) := List Buffer × Except PyError (Option Bool)

def ZmqListener.ping (wire : Wire Buffer) (message : RequestDataMessage) : Handled Buffer :=
  ([wire.serializeRequest { message with type := .PONG }],.ok (some true))

/-- The block under `try` in `read`: the reply, and the value after it is sent. -/
def ZmqListener.reading (self : ZmqListener Buffer) (wire : Wire Buffer) (message : RequestDataMessage) :
    Except PyError (Buffer × Option Bool) := do
  let front ← message.getattr "front"
  let zero ← if front = 0 then pure true else (do return (← message.getattr "back") = 0)
  if zero then
    return (wire.serializeRequest { message with type := .ERROR },some false)
  let low := (← message.getattr "time") - (← message.getattr "back")
  let high := (← message.getattr "time") + (← message.getattr "front")
  let cycles ← getRange wire self.redis low high
  let id ← int32 self.id
  let mid ← int32 (.int (← message.getattr "mid"))
  return (wire.serializeData { cycles with id := some id, mid := some mid },none)

def ZmqListener.read (self : ZmqListener Buffer) (wire : Wire Buffer) (message : RequestDataMessage) : Handled Buffer :=
  match self.reading wire message with
  | .ok (reply,value) => ([reply],.ok value)
  | .error .DecodeError => ([],.ok (some false))
  | .error e => ([],.error e)

def ZmqListener.handlers (self : ZmqListener Buffer) (wire : Wire Buffer) :
    RequestType → Option (RequestDataMessage → Handled Buffer)
  | .PING => some (ping wire)
  | .READ => some (self.read wire)
  | _ => none

/-- `self.handlers[message.type](message)`. -/
def ZmqListener.handle (self : ZmqListener Buffer) (wire : Wire Buffer) (message : RequestDataMessage) : Handled Buffer :=
  match self.handlers wire message.type with
  | some handler => handler message
  | none => ([],.error .KeyError)

/-- What the daemon does on its socket. -/
inductive Event (Buffer : Type) where
  | recv (b : Buffer) | send (b : Buffer)
  deriving DecidableEq

/-- How `run` stands after the given messages: waiting in `recv`, returned or
    left by an exception. -/
inductive Outcome where
  | receiving | returned | raised (e : PyError)
  deriving DecidableEq

/-- The loop in `run`, for the messages that arrive. -/
def ZmqListener.run (self : ZmqListener Buffer) (wire : Wire Buffer) : List Buffer → List (Event Buffer) × Outcome
  | [] => ([],.receiving)
  | message_buff :: arriving =>
    match wire.parseRequest message_buff with
    | none => ([.recv message_buff],.returned)
    | some message =>
      let (sent,result) := self.handle wire message
      let now := .recv message_buff :: sent.map .send
      match result with
      | .ok _ => (now ++ (self.run wire arriving).1,(self.run wire arriving).2)
      | .error .DecodeError => (now,.returned)
      | .error e => (now,.raised e)

/-! ### Which requests are served -/

/-- The reply that a request calls for. -/
def Answers (wire : Wire Buffer) (box_id : Int) (request : RequestDataMessage) (reply : Buffer) : Prop :=
  match request.type with
  | .PING => ∃ m, wire.parseRequest reply = some m ∧ m.type = .PONG ∧ m.mid = request.mid
  | .READ =>
    if request.back.getD 0 = 0 ∨ request.forward.getD 0 = 0 then ∃ m, wire.parseRequest reply = some m ∧ m.type = .ERROR
    else ∃ m, wire.parseData reply = some m ∧ m.id = some box_id ∧ m.mid = some request.mid
  | _ => True

/-- Each request is received and then answered by one reply, and the daemon
    waits for the next. -/
def Served (wire : Wire Buffer) (box_id : Int) (requests : List RequestDataMessage)
    (ran : List (Event Buffer) × Outcome) : Prop :=
  ∃ replies, List.Forall₂ (Answers wire box_id) requests replies ∧
    ran.1 = (List.zipWith (fun request reply => [.recv (wire.serializeRequest request),.send reply]) requests replies).flatten ∧
    ran.2 = .receiving

section
variable (wire : Wire Buffer) (self : ZmqListener Buffer)

/-- No window side is called `front`. -/
theorem ZmqListener.read_raises (message : RequestDataMessage) : self.read wire message = ([],.error .AttributeError) := rfl

theorem ZmqListener.run_ping {message : RequestDataMessage} (type : message.type = .PING) (arriving : List Buffer) :
    self.run wire (wire.serializeRequest message :: arriving) =
      (.recv (wire.serializeRequest message) :: .send (wire.serializeRequest { message with type := .PONG }) ::
        (self.run wire arriving).1,(self.run wire arriving).2) := by
  rw [run,wire.request_kept]
  simp [handle,handlers,type,ping]

theorem ZmqListener.run_other {message : RequestDataMessage} (type : message.type ≠ .PING) (arriving : List Buffer) :
    ∃ e, self.run wire (wire.serializeRequest message :: arriving) = ([.recv (wire.serializeRequest message)],.raised e) := by
  rw [run,wire.request_kept]
  cases request : message.type with
  | PING => exact absurd request type
  | READ => exact ⟨.AttributeError,by simp [handle,handlers,request,read_raises]⟩
  | PONG => exact ⟨.KeyError,by simp [handle,handlers,request]⟩
  | ERROR => exact ⟨.KeyError,by simp [handle,handlers,request]⟩

end

/-- The daemon serves exactly the sequences of pings, whatever the settings. -/
theorem served_iff_pings (wire : Wire Buffer) (box_id : Int) (text : Text.Str) (redis : Redis Buffer)
    (requests : List RequestDataMessage) :
    Served wire box_id requests ((ZmqListener.new (Settings.new.loadFile text) redis).run wire (requests.map wire.serializeRequest)) ↔
      ∀ request ∈ requests, request.type = .PING := by
  generalize ZmqListener.new (Settings.new.loadFile text) redis = self
  induction requests with
  | nil => simpa using ⟨[],.nil,rfl,rfl⟩
  | cons request requests ih =>
    rw [List.map_cons,List.forall_mem_cons,← ih]
    constructor
    · rintro ⟨replies,answers,events,outcome⟩
      by_cases type : request.type = .PING
      · rw [self.run_ping wire type] at events outcome
        cases answers with
        | cons _ later =>
          simp at events
          exact ⟨type,_,later,events.2,outcome⟩
      · obtain ⟨e,raised⟩ := self.run_other wire type (requests.map wire.serializeRequest)
        rw [raised] at outcome
        cases outcome
    · rintro ⟨type,replies,answers,events,outcome⟩
      rw [self.run_ping wire type]
      refine ⟨wire.serializeRequest { request with type := .PONG } :: replies,.cons ?_ answers,?_,outcome⟩
      · rw [Answers,type]
        exact ⟨_,wire.request_kept _,rfl,rfl⟩
      · simp [events]

/-- A request for the seconds around a time. -/
def readAround : RequestDataMessage := ⟨.READ,some 5000,some 1000,some 1000,7⟩

/-- It gets no reply and ends the daemon. -/
theorem read_not_served :
    (Settings.new.loadFile "box_id:I:2\n".toList).getKey "box_id".toList = some "2".toList ∧
    (ZmqListener.new (Settings.new.loadFile "box_id:I:2\n".toList) oneBatch).run .plain [Wire.plain.serializeRequest readAround] =
      ([.recv (Wire.plain.serializeRequest readAround)],.raised .AttributeError) ∧
    ¬ Served .plain 2 [readAround]
      ((ZmqListener.new (Settings.new.loadFile "box_id:I:2\n".toList) oneBatch).run .plain [Wire.plain.serializeRequest readAround]) := by
  refine ⟨by decide,rfl,?_⟩
  rintro ⟨_,_,_,outcome⟩
  cases outcome

end Opqbox.Listener
