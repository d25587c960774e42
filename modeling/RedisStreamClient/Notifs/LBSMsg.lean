import RedisStreamClient.Lib.Split
import RedisStreamClient.Types.Errs
import Mathlib.Data.Finmap

/-!
# LBS messages and notifications

The data types of package `notifs` and the constants of `configs` they use.  Go
maps with string keys are `Finmap`s, and a value of dynamic type is a `Value`: the
client asks only whether it is a string.
-/

namespace RedisStreamClient

/-- A Go map with string keys. -/
abbrev GoMap (α : Type) := Finmap fun _ : String ↦ α

/-- A Go value of dynamic type. -/
inductive Value
  | /-- A string. -/
    str (s : String)
  | /-- A value of any other type, by its printed form. -/
    other (text : String)
deriving DecidableEq, Repr

/-- The field/value map of a stream entry, as the client library returns it. -/
abbrev Values := GoMap Value

namespace Configs

/-- `configs.MutexKeySep`. -/
def mutexKeySep : String := "<MUTEX_KEY_SEP>"

/-- `configs.KeySpacePrefix`. -/
def keySpacePrefix : String := "__keyspace@0__:"

/-- `configs.ExpiredPayload`. -/
def expiredPayload : String := "expired"

/-- `configs.KeyspacePatternForExpiredEvents`. -/
def keyspacePatternForExpiredEvents : String := "KEx"

/-- `configs.DefaultKspChanSize`. -/
def defaultKspChanSize : Nat := 500

/-- `configs.LBSInput`. -/
def lbsInput : String := "lbs-input"

/-- `configs.RetryCountField`. -/
def retryCountField : String := "_retry_count"

/-- `configs.DLQReasonField`. -/
def dlqReasonField : String := "_dlq_reason"

/-- `configs.DLQReasonMaxRetries`. -/
def dlqReasonMaxRetries : String := "max_retries_exceeded"

/-- `configs.DLQReasonUnparseable`. -/
def dlqReasonUnparseable : String := "unparseable"

/-- `configs.GroupSuffix`. -/
def groupSuffix : String := "-group"

/-- `configs.InputSuffix`. -/
def inputSuffix : String := "-input"

/-- `configs.MinimalRangeID`. -/
def minimalRangeID : String := "-"

/-- `configs.MaximalRangeID`. -/
def maximalRangeID : String := "+"

end Configs

namespace Notifs

open Errs Lib

/-- `notifs.LBSInfo`: a data stream together with the ID of its LBS entry. -/
@[ext]
structure LBSInfo where
  /-- `DataStreamName`. -/
  dataStreamName : String
  /-- `IDInLBS`. -/
  idInLBS : String
deriving DecidableEq, Repr

/-- `FormMutexKey`: `strings.Join` of the two parts with the separator. -/
def LBSInfo.formMutexKey (l : LBSInfo) : String :=
  l.dataStreamName ++ Configs.mutexKeySep ++ l.idInLBS

/-- `CreateByKspNotification`. -/
def createByKspNotification (streamName payload : String) : Except Err LBSInfo :=
  if payload ≠ Configs.expiredPayload then
    .error (.errorf ("ignoring non-expired event for key " ++ streamName ++ " with payload " ++
      payload))
  else
    match splitString streamName Configs.mutexKeySep with
    | [dataStreamName, idInLBS] => .ok ⟨dataStreamName, idInLBS⟩
    | _ => .error (.errorf
        "invalid ksp format: must be datastream_name<MUTEX_KEY_SEP>message_id_in_lbs")

/-- `CreateByParts`. -/
def createByParts (dataStreamName idInLBS : String) : Except Err LBSInfo :=
  if dataStreamName = "" ∨ idInLBS = "" then
    .error (.errorf "malformed or incomplete LBS message")
  else
    .ok ⟨dataStreamName, idInLBS⟩

/-- `notifs.LBSInputMessage`: what a producer writes to the LBS. -/
structure LBSInputMessage where
  /-- `DataStreamName`. -/
  dataStreamName : String
  /-- `Info`. -/
  info : GoMap Value

/-- `notifs.NotificationType`. -/
inductive NotificationType
  | unknown
  | streamAdded
  | streamDisowned
  | streamExpired
  | streamTerminated
deriving DecidableEq, Repr

/-- `notifs.RecoverableRedisNotification`. -/
structure RecoverableRedisNotification where
  /-- `Type`. -/
  type : NotificationType
  /-- `Payload`. -/
  payload : LBSInfo
  /-- `AdditionalInfo`. -/
  additionalInfo : GoMap Value

/-- `Make`. -/
def make (notifType : NotificationType) (lbsInfo : LBSInfo) (additionalInfo : GoMap Value) :
    RecoverableRedisNotification := ⟨notifType, lbsInfo, additionalInfo⟩

/-- `MakeStreamTerminatedNotif`. -/
def makeStreamTerminatedNotif (info : String) : RecoverableRedisNotification :=
  ⟨.streamTerminated, ⟨"", ""⟩, Finmap.singleton "info" (.str info)⟩

end Notifs

end RedisStreamClient
