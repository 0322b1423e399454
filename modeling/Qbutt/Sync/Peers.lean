import Qbutt.Algorithm.Transition
import Qbutt.Qt.Json
import Qbutt.Sync.Difference

/-!
# Synchronisation of the peers of a torrent

`generateSyncData` of `webui/api/synccontroller.cpp`: the response to a request is the difference
between the data that the client has acknowledged and the current ones, or all of them.  A client
keeps the data of the last response it applied and sends the number of that response; responses may
be lost.
-/

namespace Qbutt.Sync

def KEY_FULL_UPDATE : String := "full_update"

def KEY_RESPONSE_ID : String := "rid"

def toInt : QVariant → ℤ
  | .scalar (.number value) => value.num
  | _ => 0

/-- `generateSyncData`: the response, and what the controller keeps for the next one. -/
def generateSyncData (acceptedResponseId : ℤ) (data lastAcceptedData lastData : QVariantMap) :
    QVariantMap × QVariantMap × QVariantMap :=
  let lastResponseId :=
    if 0 < acceptedResponseId then toInt (QVariantMap.get lastData KEY_RESPONSE_ID) else 0
  let lastAcceptedData :=
    if 0 < lastResponseId ∧ lastResponseId = acceptedResponseId then lastData else lastAcceptedData
  let fullUpdate := ¬ (0 < lastResponseId ∧
    toInt (QVariantMap.get lastAcceptedData KEY_RESPONSE_ID) = acceptedResponseId)
  let syncData :=
    if fullUpdate then QVariantMap.set data KEY_FULL_UPDATE (.scalar (.bool true))
    else processMap lastAcceptedData data
  let lastAcceptedData := if fullUpdate then [] else lastAcceptedData
  -- cycle between 1 and 1000000
  let responseId := QVariant.scalar (.number (lastResponseId % 1000000 + 1 : ℤ))
  (QVariantMap.set syncData KEY_RESPONSE_ID responseId, lastAcceptedData,
    QVariantMap.set data KEY_RESPONSE_ID responseId)

/-! ### JSON -/

def scalarJson : Scalar → Json
  | .invalid => .null
  | .null => .null
  | .bool value => .bool value
  | .number value => .number value
  | .string value => .string value

mutual

/-- `QJsonValue::fromVariant`. -/
def toJson : QVariant → Json
  | .scalar value => scalarJson value
  | .list items => .array (items.map scalarJson)
  | .strings items => .array (items.map Json.string)
  | .map fields => .object (toJsonFields fields)
  | .hash items => .object (toJsonFields items)
termination_by structural value => value

/-- `QJsonObject::fromVariantMap`. -/
def toJsonFields : QVariantMap → JsonObject
  | [] => []
  | (key, value) :: fields => (key, toJson value) :: toJsonFields fields
termination_by structural fields => fields

end

/-! ### The client -/

/-- What a client holds. -/
structure PeersClient where
  rid : ℤ := 0
  data : JsonObject := []

def removedKeys (response : JsonObject) (key : String) : List String :=
  (response.get (key ++ KEY_SUFFIX_REMOVED)).toArray.map Json.toStr

def deleteKeys (keys : List String) : Json → Json
  | .object fields => .object (fields.filter fun field => field.1 ∉ keys)
  | value => value

def isRemoval (data : JsonObject) (key : String) : Bool :=
  data.keys.any fun name => (data.get name).isObject && key == name ++ KEY_SUFFIX_REMOVED

/-- Apply a response: replace the data by those of a full update, else delete the removed keys and
merge the rest. -/
def PeersClient.apply (client : PeersClient) (response : JsonObject) : PeersClient :=
  let rid := response.get KEY_RESPONSE_ID
  let fields := (response.drop KEY_RESPONSE_ID).drop KEY_FULL_UPDATE
  { rid := rid.toInt 0
    data :=
      if (response.get KEY_FULL_UPDATE).toBool then fields
      else
        Json.mergeFields
          (client.data.map fun field =>
            (field.1, deleteKeys (removedKeys response field.1) field.2))
          (fields.filter fun field => !isRemoval client.data field.1) }

/-! ### Runs -/

/-- The state of a run; `lost` counts the responses lost since the last one that arrived, and
`applied` is the data map of that one. -/
structure PeersState where
  lastAcceptedData : QVariantMap := []
  lastData : QVariantMap := []
  client : PeersClient := {}
  lost : ℕ := 0
  applied : Option QVariantMap := none

/-- A request, when the data are these; its response arrives or is lost. -/
structure PeersRequest where
  data : QVariantMap
  lost : Bool

def peersStep (s : PeersState) (request : PeersRequest) : PeersState :=
  let (response, lastAcceptedData, lastData) :=
    generateSyncData s.client.rid request.data s.lastAcceptedData s.lastData
  if request.lost then
    { s with lastAcceptedData := lastAcceptedData, lastData := lastData, lost := s.lost + 1 }
  else
    { lastAcceptedData := lastAcceptedData
      lastData := lastData
      client := s.client.apply (toJsonFields response)
      lost := 0
      applied := some request.data }

/-- A run starts with a new session and a new client. -/
def peersSystem : System PeersState PeersRequest where
  initial s := s = {}
  step s request := some (peersStep s request)

end Qbutt.Sync
