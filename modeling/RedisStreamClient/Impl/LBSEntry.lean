import RedisStreamClient.Lib.Strconv
import RedisStreamClient.Notifs.LBSMsg

/-!
# LBS entries

`lbsEntry` of `impl/lbsentry.go`: the ID of an LBS entry with its field/value map,
and what the recovery path reads from it.  The JSON decoder of the payload is a
parameter: the client only uses its result.
-/

namespace RedisStreamClient.Impl

open RedisStreamClient.Lib RedisStreamClient.Errs RedisStreamClient.Notifs

/-- `json.Unmarshal` into an `LBSInputMessage`, with the text of its error. -/
structure Json where
  /-- Decode a payload. -/
  unmarshal : String → Except String LBSInputMessage

/-- `lbsEntry`. -/
structure LBSEntry where
  /-- The ID. -/
  id : String
  /-- The raw field/value map. -/
  values : Values

namespace LBSEntry

/-- `retryCount`. -/
def retryCount (e : LBSEntry) : Int :=
  match e.values.lookup Configs.retryCountField with
  | none => 0
  | some (.other _) => 0
  | some (.str s) =>
    match atoi s with
    | none => 0
    | some n => if n < 0 then 0 else n

/-- `dataStreamName`. -/
def dataStreamName (J : Json) (e : LBSEntry) : Except Err String :=
  match e.values.lookup Configs.lbsInput with
  | none => .error .invalidKeyForLBSMessage
  | some (.other _) => .error .invalidLBSMessage
  | some (.str s) =>
    match J.unmarshal s with
    | .error err => .error (.redis .unmarshalLBSMessage (.errorf err))
    | .ok msg =>
      if msg.dataStreamName = "" then .error .noDatastreamInLBSMessage
      else .ok msg.dataStreamName

/-- `cloneValues`: values are immutable here, so the copy is the map itself. -/
def cloneValues (e : LBSEntry) : Values := e.values

/-- The fields of the successor that a re-queue adds to the LBS. -/
def requeued (e : LBSEntry) (next : Int) : Values :=
  e.cloneValues.insert Configs.retryCountField (.str (itoa next))

/-- The fields of the copy that goes to the DLQ. -/
def deadLettered (e : LBSEntry) (retryCount : Int) (reason : String) : Values :=
  (e.cloneValues.insert Configs.retryCountField (.str (itoa retryCount))).insert
    Configs.dlqReasonField (.str reason)

theorem dataStreamName_ne_empty {J : Json} {e : LBSEntry} {n : String}
    (h : e.dataStreamName J = .ok n) : n ≠ "" := by
  unfold dataStreamName at h
  split at h
  · simp at h
  · simp at h
  · split at h
    · simp at h
    · split at h
      · simp at h
      · obtain rfl := Except.ok.inj h
        assumption

/-- A successor is for the same data stream. -/
theorem dataStreamName_requeued (J : Json) (e : LBSEntry) (id : String) (n : Int) :
    (LBSEntry.mk id (e.requeued n)).dataStreamName J = e.dataStreamName J := by
  have hne : Configs.lbsInput ≠ Configs.retryCountField := by decide
  simp only [dataStreamName, requeued, cloneValues, Finmap.lookup_insert_of_ne _ hne]

/-- The count in the retry field of an entry. -/
theorem retryCount_of_lookup {e : LBSEntry} {n : Int} (hlo : 0 ≤ n) (hhi : n ≤ maxInt)
    (h : e.values.lookup Configs.retryCountField = some (.str (itoa n))) : e.retryCount = n := by
  have hread := atoi_itoa hlo hhi
  simp only [retryCount, h, hread, if_neg (not_lt.2 hlo)]

/-- A successor has the count it was given, if that is not negative. -/
theorem retryCount_requeued (e : LBSEntry) (id : String) {n : Int} (hlo : 0 ≤ n) (hhi : n ≤ maxInt) :
    (LBSEntry.mk id (e.requeued n)).retryCount = n :=
  retryCount_of_lookup hlo hhi (Finmap.lookup_insert _)

theorem retryCount_deadLettered (e : LBSEntry) (id reason : String) {n : Int} (hlo : 0 ≤ n)
    (hhi : n ≤ maxInt) : (LBSEntry.mk id (e.deadLettered n reason)).retryCount = n := by
  refine retryCount_of_lookup hlo hhi ?_
  have hne : Configs.retryCountField ≠ Configs.dlqReasonField := by decide
  rw [deadLettered, Finmap.lookup_insert_of_ne _ hne, Finmap.lookup_insert]

/-- A successor whose count wrapped around starts again. -/
theorem retryCount_requeued_minInt (e : LBSEntry) (id : String) :
    (LBSEntry.mk id (e.requeued (-(2 ^ 63)))).retryCount = 0 := by
  have hlookup : (e.requeued (-(2 ^ 63))).lookup Configs.retryCountField =
      some (.str (itoa (-(2 ^ 63)))) := Finmap.lookup_insert _
  simp only [retryCount, hlookup, atoi_itoa_minInt]
  rfl

theorem retryCount_nonneg (e : LBSEntry) : 0 ≤ e.retryCount := by
  unfold retryCount
  split
  · exact le_rfl
  · exact le_rfl
  · split
    · exact le_rfl
    · split <;> omega

theorem retryCount_le_maxInt (e : LBSEntry) : e.retryCount ≤ maxInt := by
  have hzero : (0 : Int) ≤ maxInt := by decide
  unfold retryCount
  split
  · exact hzero
  · exact hzero
  · split
    · exact hzero
    · next h =>
      split
      · exact hzero
      · exact atoi_le_maxInt h

end LBSEntry

end RedisStreamClient.Impl
