import RocketMQClient.Codec

/-!
# Completions of remote calls

A call completes with a gRPC status and, if that is OK, a response whose common
part has a status code of its own. `Completion` is what an `InvocationContext`
holds when its callback runs. Each caller maps the two levels to an error code
in its own way; a failure of the transport is a request timeout everywhere.
-/

namespace RocketMQClient

inductive Code
  | ok
  | cancelled
  | unknown
  | invalidArgument
  | deadlineExceeded
  | notFound
  | alreadyExists
  | permissionDenied
  | unauthenticated
  | resourceExhausted
  | failedPrecondition
  | aborted
  | outOfRange
  | unimplemented
  | internal
  | unavailable
  | dataLoss
  deriving DecidableEq, Repr

structure Completion (Response : Type) where
  statusOk : Bool := true
  code : Code := .ok
  response : Response

def Completion.confirmed {Response : Type} (c : Completion Response) : Bool :=
  c.statusOk && c.code == .ok

def Completion.result {Response : Type} (c : Completion Response) (table : Code → ErrorCode) :
    Except ErrorCode Response :=
  if !c.statusOk then .error .requestTimeout
  else if c.code = .ok then .ok c.response
  else .error (table c.code)

theorem Completion.result_cases {Response : Type} (c : Completion Response)
    (table : Code → ErrorCode) :
    (c.confirmed = true ∧ c.code = .ok ∧ c.result table = .ok c.response) ∨
      c.confirmed = false ∧ ∃ ec, c.result table = .error ec := by
  by_cases hstatus : c.statusOk = true
  · by_cases hcode : c.code = .ok
    · exact .inl (by simp [confirmed, result, hstatus, hcode])
    · exact .inr (by simp [confirmed, result, hstatus, hcode])
  · exact .inr (by simp [confirmed, result, hstatus])

def queryOffsetError : Code → ErrorCode
  | .unauthenticated => .unauthorized
  | .permissionDenied => .forbidden
  | .internal => .internalServerError
  | _ => .notImplemented

def queryAssignmentError : Code → ErrorCode
  | .unauthenticated => .unauthorized
  | .permissionDenied => .forbidden
  | .invalidArgument => .badRequest
  | .internal => .internalServerError
  | _ => .notImplemented

def pullMessageError : Code → ErrorCode
  | .permissionDenied => .forbidden
  | .unauthenticated => .unauthorized
  | .deadlineExceeded => .gatewayTimeout
  | .invalidArgument => .badRequest
  | .failedPrecondition => .preconditionRequired
  | .internal => .internalServerError
  | _ => .notImplemented

def receiveMessageError : Code → ErrorCode
  | .unauthenticated => .unauthorized
  | .permissionDenied => .forbidden
  | .invalidArgument => .badRequest
  | .deadlineExceeded => .gatewayTimeout
  | .internal => .internalServerError
  | _ => .notImplemented

end RocketMQClient
