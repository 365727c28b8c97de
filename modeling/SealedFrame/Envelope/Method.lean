import SealedFrame.Error

namespace SealedFrame

/-- What an envelope asks of its receiver. -/
inductive Method where
  | push
  | pull
  | ping
  | ack
  deriving DecidableEq, Repr

namespace Method

def id : Method → UInt8
  | push => 0
  | pull => 1
  | ping => 2
  | ack => 3

def ofId (id : UInt8) : Except Error Method :=
  if id = 0 then .ok push
  else if id = 1 then .ok pull
  else if id = 2 then .ok ping
  else if id = 3 then .ok ack
  else .error .invalidMethod

def name : Method → String
  | push => "Push"
  | pull => "Pull"
  | ping => "Ping"
  | ack => "Ack"

@[simp] theorem ofId_id (method : Method) : ofId method.id = .ok method := by
  cases method <;> rfl

theorem id_of_ofId {id : UInt8} {method : Method} (found : ofId id = .ok method) :
    method.id = id := by
  unfold ofId at found
  repeat' split at found
  all_goals cases found
  all_goals symm; assumption

end Method

end SealedFrame
