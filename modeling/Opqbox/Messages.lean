/-!
The messages of `opq.proto` as the Python runtime presents them, and what the
programs rely on of the protobuf library: a message that was serialized parses
to itself.
-/
namespace Opqbox.Messages

/-- The exceptions that the Python programs can meet. -/
inductive PyError where
  | KeyError | AttributeError | TypeError | ValueError | DecodeError
  deriving DecidableEq

/-- `Cycle`. -/
structure Cycle where
  time : Nat
  data : List Int
  last_gps : Option Int
  current_count : Option Int
  flags : Option Int
  deriving DecidableEq

/-- `DataMessage`; the required `id` is not set before it is assigned. -/
structure DataMessage where
  id : Option Int
  mid : Option Int
  cycles : List Cycle
  deriving DecidableEq

/-- A new `DataMessage()`. -/
def DataMessage.empty : DataMessage := ⟨none, none, []⟩

inductive RequestType where
  | PING | PONG | READ | ERROR
  deriving DecidableEq

/-- `RequestDataMessage`, with the optional fields where they are present. -/
structure RequestDataMessage where
  type : RequestType
  time : Option Nat
  back : Option Int
  forward : Option Int
  mid : Int
  deriving DecidableEq

/-- `message.name` for the number fields of a request: 0 where an optional field
    is absent. -/
def RequestDataMessage.getattr (message : RequestDataMessage) : String → Except PyError Int
  | "time" => .ok (message.time.getD 0)
  | "back" => .ok (message.back.getD 0)
  | "forward" => .ok (message.forward.getD 0)
  | "mid" => .ok message.mid
  | _ => .error .AttributeError

/-- What the daemon assigns to fields. -/
inductive PyObject where
  | none | str (s : List Char) | int (n : Int)

/-- The value that a field of type `int32` takes. -/
def int32 : PyObject → Except PyError Int
  | .int n => if -2147483648 ≤ n ∧ n < 2147483648 then .ok n else .error .ValueError
  | _ => .error .TypeError

/-- The protobuf library: serializing and parsing of the messages. -/
structure Wire (Buffer : Type) where
  parseData : Buffer → Option DataMessage
  parseRequest : Buffer → Option RequestDataMessage
  serializeData : DataMessage → Buffer
  serializeRequest : RequestDataMessage → Buffer
  data_kept : ∀ m, m.id.isSome → parseData (serializeData m) = some m
  request_kept : ∀ m, parseRequest (serializeRequest m) = some m

/-- Messages that are sent as they are. -/
def Wire.plain : Wire (DataMessage ⊕ RequestDataMessage) where
  parseData b := b.getLeft?
  parseRequest b := b.getRight?
  serializeData := .inl
  serializeRequest := .inr
  data_kept _ _ := rfl
  request_kept _ := rfl

end Opqbox.Messages
