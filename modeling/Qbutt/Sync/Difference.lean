import Qbutt.Qt.Variant

/-!
# Differences of synchronised data

`processMap`, `processHash` and `processList` of `webui/api/synccontroller.cpp` compare what a
client was sent before with the current data and return what has changed.  Maps are walked in the
order of their keys, and the difference is built up in `syncData`.
-/

namespace Qbutt.Sync

def KEY_SUFFIX_REMOVED : String := "_removed"

/-- The loop of `processList`: what is new, and what is left of the old items. -/
def processListFrom (syncData : List Scalar) : List Scalar → List Scalar → List Scalar × List Scalar
  | prevData, [] => (syncData, prevData)
  | prevData, item :: data =>
    if prevData.contains item then processListFrom syncData (prevData.erase item) data
    else processListFrom (syncData ++ [item]) prevData data

/-- `processList`: the new items, and the items that are missing now. -/
def processList (prevData data : List Scalar) : List Scalar × List Scalar :=
  if prevData.isEmpty then (data, [])
  else processListFrom [] prevData data

mutual

/-- `processMap`, for the rest of the map; `syncData` is the difference found so far. -/
def processMapFrom (prevData syncData : QVariantMap) : QVariantMap → QVariantMap
  | [] => syncData
  | (key, value) :: data =>
    processMapFrom prevData (processField prevData syncData key value) data
termination_by structural data => data

/-- The body of the loop of `processMap`. -/
def processField (prevData syncData : QVariantMap) (key : String) : QVariant → QVariantMap
  | .map fields =>
    let map := processMapFrom (QVariantMap.get prevData key).toMap [] fields
    if map.isEmpty then syncData else QVariantMap.set syncData key (.map map)
  | .hash items =>
    let prevItems := (QVariantMap.get prevData key).toHash
    -- If the list was empty before, then the difference is a whole new list.
    let (map, removedItems) :=
      if prevItems.isEmpty then (items, []) else processHashFrom prevItems [] items
    let syncData := if map.isEmpty then syncData else QVariantMap.set syncData key (.map map)
    if removedItems.isEmpty then syncData
    else QVariantMap.set syncData (key ++ KEY_SUFFIX_REMOVED) (.strings removedItems)
  | .list items =>
    let (list, removedItems) := processList (QVariantMap.get prevData key).toList items
    let syncData := if list.isEmpty then syncData else QVariantMap.set syncData key (.list list)
    if removedItems.isEmpty then syncData
    else QVariantMap.set syncData (key ++ KEY_SUFFIX_REMOVED) (.list removedItems)
  | .scalar value =>
    if (QVariantMap.get prevData key).differs value then
      QVariantMap.set syncData key (.scalar value)
    else syncData
  -- no other type is expected here
  | .strings _ => syncData
termination_by structural value => value

/-- The loop of `processHash`: the items that are new or changed, and the keys of the items that
are missing now. -/
def processHashFrom (prevData syncData : QVariantMap) : QVariantMap → QVariantMap × List String
  | [] => (syncData, prevData.map Prod.fst)
  | (key, value) :: data =>
    processHashFrom
      (if QVariantMap.has prevData key then QVariantMap.drop prevData key else prevData)
      (processItem prevData syncData key value) data
termination_by structural data => data

/-- The body of the loop of `processHash`. -/
def processItem (prevData syncData : QVariantMap) (key : String) : QVariant → QVariantMap
  | .map fields =>
    if QVariantMap.has prevData key then
      let map := processMapFrom (QVariantMap.get prevData key).toMap [] fields
      if map.isEmpty then syncData else QVariantMap.set syncData key (.map map)
    else QVariantMap.set syncData key (.map fields)
  | .strings items =>
    if QVariantMap.has prevData key then
      let (list, removedList) :=
        processList (QVariantMap.get prevData key).toList (items.map Scalar.string)
      if list.isEmpty && removedList.isEmpty then syncData
      else QVariantMap.set syncData key (.strings items)
    else QVariantMap.set syncData key (.strings items)
  -- no other type is expected here
  | .scalar _ => syncData
  | .list _ => syncData
  | .hash _ => syncData
termination_by structural value => value

end

/-- `processMap`: what has changed since `prevData`. -/
def processMap (prevData data : QVariantMap) : QVariantMap := processMapFrom prevData [] data

end Qbutt.Sync
