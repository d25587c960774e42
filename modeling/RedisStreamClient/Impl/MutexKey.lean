import RedisStreamClient.Notifs.LBSMsg

/-!
# The keys of locks and their expiry events

A lock's key joins a data stream name and an LBS ID with a separator.  When it expires,
Redis publishes an event on the keyspace channel of the key, from which the listener
decodes the two again.

The separator starts with a character that it has nowhere else, so it cannot overlap
itself.  Hence the listener decodes a key to what it was formed from unless the name or
the ID contains the separator, and what it decodes is what the key was formed from.
-/

namespace RedisStreamClient.Impl

open RedisStreamClient.Lib RedisStreamClient.Errs RedisStreamClient.Notifs

/-- `r.extractStreamnameFromKspChannel`. -/
def extractStreamnameFromKspChannel (kspChannelString : String) : Except Err String :=
  match cutPrefix kspChannelString Configs.keySpacePrefix with
  | none => .error (.errorf "invalid ksp channel payload")
  | some streamName => .ok streamName

/-- What the listener makes of a keyspace event. -/
def decodeKsp (channel payload : String) : Except Err LBSInfo := do
  let streamName ← extractStreamnameFromKspChannel channel
  createByKspNotification streamName payload

/-- The separator occurs in a string. -/
def HasSep (s : String) : Prop := Configs.mutexKeySep.toList <:+: s.toList

section

variable {key payload : String}

/-- **What the listener accepts**: an expired key that joins a name and an ID without the
separator. -/
theorem createByKspNotification_eq_ok_iff {l : LBSInfo} : createByKspNotification key payload = .ok l ↔
    payload = Configs.expiredPayload ∧ key = l.formMutexKey ∧ ¬ HasSep l.dataStreamName ∧
      ¬ HasSep l.idInLBS := by
  have hpair := splitString_eq_pair_iff (s := key) (a := l.dataStreamName) (b := l.idInLBS)
    (show Configs.mutexKeySep.toList = '<' :: "MUTEX_KEY_SEP>".toList from rfl) (by decide)
  rw [createByKspNotification]
  by_cases hp : payload = Configs.expiredPayload
  · rw [if_neg (not_not.2 hp)]
    refine Iff.trans ?_ (hpair.trans (by simp [hp, LBSInfo.formMutexKey, HasSep]))
    constructor
    · intro h
      split at h
      · next n i hsplit =>
        obtain rfl := Except.ok.inj h
        exact hsplit
      · cases h
    · intro h
      rw [h]
  · simp [hp]

/-- A key that joins two parts without the separator joins no others. -/
theorem eq_of_formMutexKey_eq {l m : LBSInfo} (hn : ¬ HasSep m.dataStreamName)
    (hi : ¬ HasSep m.idInLBS) (h : l.formMutexKey = m.formMutexKey) : l = m := by
  have hlist := congrArg String.toList h
  simp only [LBSInfo.formMutexKey, String.toList_append, List.append_assoc] at hlist
  obtain ⟨hname, hid⟩ := occurrence_unique (by decide) hn hi hlist
  exact LBSInfo.ext (String.toList_inj.1 hname) (String.toList_inj.1 hid)

/-- The key of a lock has the separator where it was formed, and nowhere else if its parts
do not contain it. -/
theorem occurs_once_iff : (∃! p : String × String, key = p.1 ++ Configs.mutexKeySep ++ p.2) ↔
    ∃ l : LBSInfo, key = l.formMutexKey ∧ ¬ HasSep l.dataStreamName ∧ ¬ HasSep l.idInLBS := by
  constructor
  · rintro ⟨⟨n, i⟩, rfl, huniq⟩
    refine ⟨⟨n, i⟩, rfl, ?_, ?_⟩
    · -- an occurrence in the name would be another one
      rintro ⟨x, y, hxy⟩
      have heq := huniq (.ofList x, .ofList y ++ Configs.mutexKeySep ++ i) (by
        apply String.toList_inj.1
        simp [← hxy])
      have hlen := congrArg List.length hxy
      rw [← (Prod.mk.inj heq).1] at hlen
      simp only [List.length_append, String.toList_ofList] at hlen
      have hpos : 0 < Configs.mutexKeySep.toList.length := by decide
      omega
    · rintro ⟨x, y, hxy⟩
      have heq := huniq (n ++ Configs.mutexKeySep ++ .ofList x, .ofList y) (by
        apply String.toList_inj.1
        simp [← hxy])
      have hlen := congrArg List.length hxy
      rw [← (Prod.mk.inj heq).2] at hlen
      simp only [List.length_append, String.toList_ofList] at hlen
      have hpos : 0 < Configs.mutexKeySep.toList.length := by decide
      omega
  · rintro ⟨l, rfl, hn, hi⟩
    refine ⟨(l.dataStreamName, l.idInLBS), rfl, ?_⟩
    rintro ⟨n, i⟩ heq
    obtain rfl := eq_of_formMutexKey_eq (l := ⟨n, i⟩) hn hi heq.symm
    rfl

/-- The key of a lock determines its parts, if the IDs do not contain the character that
ends the separator. -/
theorem formMutexKey_inj (l l' : LBSInfo) (hl : '>' ∉ l.idInLBS.toList)
    (hl' : '>' ∉ l'.idInLBS.toList) (h : l.formMutexKey = l'.formMutexKey) : l = l' := by
  have hlist := congrArg String.toList h
  simp only [LBSInfo.formMutexKey, String.toList_append] at hlist
  have hsep : Configs.mutexKeySep.toList = "<MUTEX_KEY_SEP".toList ++ ['>'] := rfl
  rw [hsep] at hlist
  simp only [List.append_assoc, List.cons_append, List.nil_append] at hlist
  rw [← List.append_assoc, ← List.append_assoc] at hlist
  obtain ⟨hname, hid⟩ := append_cons_inj hl hl' hlist
  exact LBSInfo.ext (String.toList_inj.1 (List.append_cancel_right hname)) (String.toList_inj.1 hid)

end

/-- **The codec of lock keys.**  The event of a lock's expiry is decoded to what its key was
formed from if neither part contains the separator, and refused otherwise.  A key that is
accepted is the one formed from what it is decoded to, and the accepted ones are those in
which the separator occurs once.  Keys whose IDs are made of digits and dashes are different
for different names or IDs. -/
theorem mutexKey_codec :
    (∀ l : LBSInfo, (decodeKsp (Configs.keySpacePrefix ++ l.formMutexKey) Configs.expiredPayload =
        .ok l ↔ ¬ HasSep l.dataStreamName ∧ ¬ HasSep l.idInLBS) ∧
      (HasSep l.dataStreamName ∨ HasSep l.idInLBS → ∃ err,
        decodeKsp (Configs.keySpacePrefix ++ l.formMutexKey) Configs.expiredPayload =
          .error err)) ∧
    (∀ key payload l, createByKspNotification key payload = .ok l → l.formMutexKey = key) ∧
    (∀ key, (∃ l, createByKspNotification key Configs.expiredPayload = .ok l) ↔
      ∃! p : String × String, key = p.1 ++ Configs.mutexKeySep ++ p.2) ∧
    ∀ l l' : LBSInfo, (∀ c ∈ l.idInLBS.toList, c.isDigit ∨ c = '-') →
      (∀ c ∈ l'.idInLBS.toList, c.isDigit ∨ c = '-') →
        l.formMutexKey = l'.formMutexKey → l = l' := by
  have hdecode : ∀ l : LBSInfo, decodeKsp (Configs.keySpacePrefix ++ l.formMutexKey)
      Configs.expiredPayload = createByKspNotification l.formMutexKey Configs.expiredPayload := by
    intro l
    rw [decodeKsp, extractStreamnameFromKspChannel, cutPrefix_append]
    rfl
  have hids : ∀ {i : String}, (∀ c ∈ i.toList, c.isDigit ∨ c = '-') → '>' ∉ i.toList := by
    intro i hi hm
    simpa using hi '>' hm
  refine ⟨fun l ↦ ⟨?_, ?_⟩, ?_, ?_, ?_⟩
  · rw [hdecode, createByKspNotification_eq_ok_iff]
    simp
  · intro hsep
    rw [hdecode]
    cases hl : createByKspNotification l.formMutexKey Configs.expiredPayload with
    | error err => exact ⟨err, rfl⟩
    | ok m =>
      -- what is accepted is decoded to its parts, which are those of `l`
      obtain ⟨-, hkey, hn, hi⟩ := createByKspNotification_eq_ok_iff.1 hl
      obtain rfl := eq_of_formMutexKey_eq hn hi hkey
      exact (hsep.elim hn hi).elim
  · intro key payload l h
    exact (createByKspNotification_eq_ok_iff.1 h).2.1.symm
  · intro key
    rw [occurs_once_iff]
    simp [createByKspNotification_eq_ok_iff]
  · intro l l' hl hl' h
    exact formMutexKey_inj l l' (hids hl) (hids hl') h

end RedisStreamClient.Impl
