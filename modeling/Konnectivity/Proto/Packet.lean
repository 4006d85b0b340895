/-!
# Packets on the wire

The protobuf definition of `client.Packet`: an enum field `type` and a oneof
`payload` that vary independently. The enum is open, as every proto3 enum is,
so a decoder hands on values the definition does not list. The generated
getters return a nil pointer when the oneof holds another kind or nothing at
all, which is `none` here; what a caller does with the nil is the caller's
business.
-/

namespace Konnectivity

/-- `DialRequest.Random`, the identifier the dialing side draws for a dial. -/
abbrev DialID := Int64

/-- The identifier an agent assigns to an endpoint connection. -/
abbrev ConnectID := Int64

abbrev Bytes := List UInt8

inductive PacketType where
  | dialReq
  | dialRsp
  | closeReq
  | closeRsp
  | data
  | dialCls
  | drain
  | unrecognized (n : Int32)
  deriving DecidableEq, Repr

structure DialRequest where
  protocol : String
  address : String
  random : DialID
  deriving DecidableEq, Repr

structure DialResponse where
  error : String
  connectID : ConnectID
  random : DialID
  deriving DecidableEq, Repr

structure CloseRequest where
  connectID : ConnectID
  deriving DecidableEq, Repr

structure CloseResponse where
  error : String
  connectID : ConnectID
  deriving DecidableEq, Repr

structure CloseDial where
  random : DialID
  deriving DecidableEq, Repr

structure Data where
  connectID : ConnectID
  error : String
  data : Bytes
  deriving DecidableEq, Repr

/-- The oneof of `Packet`. `Drain` carries no field. -/
inductive Payload where
  | dialRequest (m : DialRequest)
  | dialResponse (m : DialResponse)
  | data (m : Data)
  | closeRequest (m : CloseRequest)
  | closeResponse (m : CloseResponse)
  | closeDial (m : CloseDial)
  | drain
  deriving DecidableEq, Repr

structure Packet where
  type : PacketType
  payload : Option Payload
  deriving DecidableEq, Repr

namespace Packet

/-! ## The generated getters -/

def getDialRequest (p : Packet) : Option DialRequest :=
  match p.payload with
  | some (.dialRequest m) => some m
  | _ => none

def getDialResponse (p : Packet) : Option DialResponse :=
  match p.payload with
  | some (.dialResponse m) => some m
  | _ => none

def getData (p : Packet) : Option Data :=
  match p.payload with
  | some (.data m) => some m
  | _ => none

def getCloseRequest (p : Packet) : Option CloseRequest :=
  match p.payload with
  | some (.closeRequest m) => some m
  | _ => none

def getCloseResponse (p : Packet) : Option CloseResponse :=
  match p.payload with
  | some (.closeResponse m) => some m
  | _ => none

def getCloseDial (p : Packet) : Option CloseDial :=
  match p.payload with
  | some (.closeDial m) => some m
  | _ => none

/-! ## The packets the code builds -/

def ofDialRequest (m : DialRequest) : Packet := ⟨.dialReq, some (.dialRequest m)⟩

def ofDialResponse (m : DialResponse) : Packet := ⟨.dialRsp, some (.dialResponse m)⟩

def ofData (m : Data) : Packet := ⟨.data, some (.data m)⟩

def ofCloseResponse (m : CloseResponse) : Packet := ⟨.closeRsp, some (.closeResponse m)⟩

def ofCloseDial (m : CloseDial) : Packet := ⟨.dialCls, some (.closeDial m)⟩

/-- `newCloseRequestPacket`. -/
def newCloseRequest (connectID : ConnectID) : Packet :=
  ⟨.closeReq, some (.closeRequest ⟨connectID⟩)⟩

/-- `newDialClosePacket`. -/
def newDialClose (random : DialID) : Packet :=
  ⟨.dialCls, some (.closeDial ⟨random⟩)⟩

/-- The `DIAL_RSP` with which the server fails a dial. -/
def newDialFailure (random : DialID) (error : String) : Packet :=
  .ofDialResponse { random := random, error := error, connectID := 0 }

/-- The payload is of the kind the type announces. Types that carry nothing
the code reads are satisfied by any payload. -/
def wellFormed (p : Packet) : Bool :=
  match p.type with
  | .dialReq => p.getDialRequest.isSome
  | .dialRsp => p.getDialResponse.isSome
  | .closeReq => p.getCloseRequest.isSome
  | .closeRsp => p.getCloseResponse.isSome
  | .data => p.getData.isSome
  | .dialCls => p.getCloseDial.isSome
  | .drain => true
  | .unrecognized _ => true

/-- The dial a packet answers: the dial ID of a `DIAL_RSP` or a `DIAL_CLS`. -/
def answersDial (p : Packet) : Option DialID :=
  match p.type, p.payload with
  | .dialRsp, some (.dialResponse m) => some m.random
  | .dialCls, some (.closeDial m) => some m.random
  | _, _ => none

/-- The dial a `DIAL_REQ` asks for. -/
def requestsDial (p : Packet) : Option DialID :=
  match p.type, p.payload with
  | .dialReq, some (.dialRequest m) => some m.random
  | _, _ => none

/-- The dial and the connection ID a successful `DIAL_RSP` reports. -/
def reportsConn (p : Packet) : Option (DialID × ConnectID) :=
  match p.type, p.payload with
  | .dialRsp, some (.dialResponse m) => if m.error = "" then some (m.random, m.connectID) else none
  | _, _ => none

/-- The connection a `DATA` or a `CLOSE_RSP` belongs to. -/
def belongsTo (p : Packet) : Option ConnectID :=
  match p.type, p.payload with
  | .data, some (.data m) => some m.connectID
  | .closeRsp, some (.closeResponse m) => some m.connectID
  | _, _ => none

/-! ## A getter that answers, and the kind of the packet -/

section Kinds

variable {p : Packet}

theorem getDialRequest_iff {m : DialRequest} :
    p.getDialRequest = some m ↔ p.payload = some (.dialRequest m) := by
  unfold getDialRequest
  split <;> simp_all

theorem getDialResponse_iff {m : DialResponse} :
    p.getDialResponse = some m ↔ p.payload = some (.dialResponse m) := by
  unfold getDialResponse
  split <;> simp_all

theorem getData_iff {m : Data} : p.getData = some m ↔ p.payload = some (.data m) := by
  unfold getData
  split <;> simp_all

theorem getCloseRequest_iff {m : CloseRequest} :
    p.getCloseRequest = some m ↔ p.payload = some (.closeRequest m) := by
  unfold getCloseRequest
  split <;> simp_all

theorem getCloseResponse_iff {m : CloseResponse} :
    p.getCloseResponse = some m ↔ p.payload = some (.closeResponse m) := by
  unfold getCloseResponse
  split <;> simp_all

theorem getCloseDial_iff {m : CloseDial} :
    p.getCloseDial = some m ↔ p.payload = some (.closeDial m) := by
  unfold getCloseDial
  split <;> simp_all

end Kinds

end Packet

end Konnectivity
