/- GID: MotifChess/Db/Bundle/Runs
   generality: implementation
   digest: The runs of a bundle: calls of its manager, batches, crashes and power failures. -/

import MotifChess.Db.Bundle.DatabaseManager
import MotifChess.Db.StoreRuns

set_option autoImplicit false
set_option relaxedAutoImplicit false

namespace MotifChess.Db

namespace Bundle

/-- What a process does with a bundle, and what ends it. A batch of the bulk writer is any number of
writes between its begin and its commit or rollback; an import repairs the tables before it resumes
when the identity index is missing. -/
inductive Action
  | «open» (io : OpenIO)
  | close (io : ManifestIO)
  | crash
  | powerFailure (manifest commit : ℕ) (lost : BundleFile → Bool)
  | insertGame (io : StaleIO) (works : Bool) (game : Game)
  | patchGameMetadata (io : StaleIO) (works : Bool) (id : ℕ) (patch : GamePatch)
  | removeGame (io : StaleIO) (works : Bool) (id : ℕ)
  | removeUserGame (io : StaleIO) (works : Bool) (id : ℕ)
  | setManualGameProvenance (works : Bool) (id : ℕ) (sourceLabel : Option String)
      (reviewStatus : String)
  | rebuildPositionPostings (io : RebuildIO)
  | rebuildOpeningTreeIndex (io : RebuildIO)
  | prepareCanonicalMutation (io : StaleIO)
  | beginBatch
  | write (write : StoreWrite)
  | commitBatch
  | rollbackBatch
  | repair

variable {ix : Indexes}

/-- The manifest in memory names no index: the caller of the bulk writer has marked them stale. -/
def isPrepared (b : Bundle ix) : Bool :=
  b.manager.any fun m => m.manifest.positionPostings.isNone && m.manifest.openingTreeIndex.isNone

/-- The machine loses power: one of the manifests and one of the committed states come back. -/
def powerFailure (manifest commit : ℕ) (lost : BundleFile → Bool) (b : Bundle ix) :
    Option (Bundle ix) :=
  match b.disk.manifests[manifest]?, b.commits.drop commit with
  | some m, t :: older => some {
      tables := t
      commits := t :: older
      disk := { manifest := m, files := fun file => if lost file then none else b.disk.files file } }
  | _, _ => none

variable (moveHash : List UInt16 → UInt64)

/-- The lock of the manager keeps other mutations away from an open batch. -/
def step (b : Bundle ix) : Action → Option (Bundle ix)
  | .open io => if b.manager.isNone then some (b.open io).1 else none
  | .close io => some (b.close io)
  | .crash => some b.crash
  | .powerFailure manifest commit lost => b.powerFailure manifest commit lost
  | .insertGame io works game =>
    if b.inBatch then none else some (b.insertGame moveHash io works game).1
  | .patchGameMetadata io works id patch =>
    if b.inBatch then none else some (b.patchGameMetadata moveHash io works id patch).1
  | .removeGame io works id => if b.inBatch then none else some (b.removeGame io works id).1
  | .removeUserGame io works id => if b.inBatch then none else some (b.removeUserGame io works id).1
  | .setManualGameProvenance works id label status =>
    if b.inBatch then none else some (b.setManualGameProvenance works id label status).1
  | .rebuildPositionPostings io =>
    if b.inBatch then none else some (b.rebuildPositionPostings io).1
  | .rebuildOpeningTreeIndex io =>
    if b.inBatch then none else some (b.rebuildOpeningTreeIndex io).1
  | .prepareCanonicalMutation io =>
    if b.inBatch then none else some (b.prepareCanonicalMutation io).1
  | .beginBatch => if b.inBatch || !b.isPrepared then none else some { b with inBatch := true }
  | .write w =>
    if b.inBatch then (w.step moveHash b.tables).map fun t => b.store t else none
  | .commitBatch =>
    if b.inBatch then some { b with commits := b.tables :: b.commits, inBatch := false } else none
  | .rollbackBatch =>
    if b.inBatch then some { b with tables := b.commits.headD b.tables, inBatch := false } else none
  | .repair =>
    if b.inBatch || b.manager.isNone || b.tables.identityIndex then none
    else ((b.tables.deduplicate moveHash).toOption).map fun r => b.store r.1

/-- The bundles that a run of allowed actions reaches from a new one. -/
def Reaches (allowed : Bundle ix → Action → Prop) (name createdAt : String) (b : Bundle ix) : Prop :=
  System.Reaches (step moveHash) allowed (created name createdAt) b

end Bundle

end MotifChess.Db
