import Mathlib.Data.List.DropRight
import RedisStreamClient.Lib.Split
import RedisStreamClient.Types.Errs

/-!
# Whether a cluster is settled

What a node reports about the cluster, what of it is compared, and the verdict over all
reports, as in `impl/settled.go`.
-/

namespace RedisStreamClient.Impl

open RedisStreamClient.Lib RedisStreamClient.Errs

/-! ## Texts -/

/-- `unicode.IsSpace`. -/
def isSpace (c : Char) : Bool :=
  c.toNat ∈ [0x09, 0x0a, 0x0b, 0x0c, 0x0d, 0x20, 0x85, 0xa0, 0x1680, 0x2028, 0x2029, 0x202f, 0x205f,
    0x3000] || (0x2000 ≤ c.toNat && c.toNat ≤ 0x200a)

/-- `strings.TrimSpace`. -/
def trimSpace (s : String) : String :=
  .ofList ((s.toList.dropWhile isSpace).rdropWhile isSpace)

/-- `strings.Fields`. -/
def fields (s : String) : List String :=
  ((s.toList.splitOnP isSpace).filter (· ≠ [])).map .ofList

/-! ## Reports -/

/-- `nodeReport`. -/
structure NodeReport where
  /-- `addr`. -/
  addr : String
  /-- `state`: the `cluster_state` of `CLUSTER INFO`. -/
  state : String
  /-- `slots`: who owns which slots, as the node sees it. -/
  slots : String
  /-- `err`, when the node could not be asked. -/
  err : Option Err

/-- `clusterInfoField`. -/
def clusterInfoField (info key : String) : String :=
  ((splitString info "\n").findSome? fun line ↦ cutPrefix (trimSpace line) (key ++ ":")).getD ""

/-- What `slotOwnership` keeps of one line. -/
def slotOwner (line : String) : Option String :=
  match fields line with
  | f@(id :: _) =>
    let slots := (f.drop 8).filter fun s ↦ !s.toList.head?.any (· == '[')
    if f.length < 9 ∨ slots = [] then none else some (id ++ " " ++ ",".intercalate slots)
  | [] => none

/-- `slotOwnership`. -/
def slotOwnership (clusterNodes : String) : String :=
  "\n".intercalate (((splitString clusterNodes "\n").filterMap slotOwner).mergeSort (· ≤ ·))

/-- `evaluateSettled`. -/
def evaluateSettled (reports : List NodeReport) : Option Err :=
  let reports := reports.mergeSort fun a b ↦ a.addr ≤ b.addr
  let firstErr := reports.findSome? fun rep ↦ rep.err.map fun e ↦ Err.wrapf (rep.addr ++ ": ") e ""
  match reports.filter (·.err.isNone) with
  | [] => some (.redis .reinitTopology (firstErr.getD (.errorf "no cluster nodes known")))
  | ref :: rest =>
    match (ref :: rest).find? (·.state ≠ "ok") with
    | some rep => some (.wrapf "" .clusterNotSettled
        (": node " ++ rep.addr ++ " reports cluster_state:" ++ rep.state))
    | none =>
      match rest.find? (·.slots ≠ ref.slots) with
      | some rep => some (.wrapf "" .clusterNotSettled
          (": nodes " ++ ref.addr ++ " and " ++ rep.addr ++
            " disagree about which node owns which slots"))
      | none => none

end RedisStreamClient.Impl
