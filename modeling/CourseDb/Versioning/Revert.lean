import CourseDb.Runtime.StorageNodeEngine

/-! # Reverting a table

A table is taken back to a point in time by undoing the records of its version
log that are younger, the last one first. Undoing writes nothing to the log.
-/

namespace CourseDb.RevertService

open StorageNodeEngine (Action)

variable (dbName tableName : ByteString)

def loadRecords : Action (List VersionRecord) := do
  let _ ← StorageNodeEngine.openTable dbName tableName
  let log ← StorageNodeEngine.openVersionLog dbName tableName
  StorageNodeEngine.onVersionLog log VersionLog.readAll

def collectRollbackRecords (records : List VersionRecord) (timestampMs : ℤ) :
    List VersionRecord :=
  records.filter fun record =>
    record.tableName = tableName && decide (timestampMs < record.timestampMs)

def applyInverseRecord (record : VersionRecord) : Action Unit :=
  match record.op with
  | .kInsert => StorageNodeEngine.deleteInternal dbName tableName record.rid false
  | .kDelete => StorageNodeEngine.restoreInternal dbName tableName record.rid record.before false
  | .kUpdate => StorageNodeEngine.updateInternal dbName tableName record.rid record.before false

/-- The loop over the records to undo. -/
def applyInverseRecords : List VersionRecord → Action Unit
  | [] => return ()
  | record :: records => do
    applyInverseRecord dbName tableName record
    applyInverseRecords records

def revertTableToTimestamp (timestampMs : ℤ) : Action Unit := do
  let records ← loadRecords dbName tableName
  applyInverseRecords dbName tableName
    (collectRollbackRecords tableName records timestampMs).reverse

end CourseDb.RevertService
