import WalFlux.Daemon
import WalFlux.Library.Log

/-! The database server as one configuration sees it: the committed source transactions, the
replication slot with its walsender, the publication, the checkpoint table and the targets. -/

namespace WalFlux

open Aggregates

structure Walsender (ι : Type) where
  pid : ℕ
  owner : ι
  feedback : List ℕ

/-- A slot and the last daemon to have opened a stream on it. -/
structure Slot (ι : Type) where
  confirmed : ℕ
  opener : Option ι
  walsender : Option (Walsender ι)

structure SourceTable where
  replicaIdentity : Char
  columns : Python.Dict String String

structure Catalog where
  versionNum : ℕ
  version : String
  walLevel : String
  source : String × String → Option SourceTable

/-- `history` lists the source transactions in commit order and `wal` is the end of the log.
`checkpoint` is the table, where it exists, with the row of the configured slot. -/
structure Server (ι T F : Type) where
  catalog : Catalog
  history : List (SealedTxn F)
  wal : ℕ
  slot : Option (Slot ι)
  publication : Option (List Sql.TableName)
  checkpoint : Option (Option ℕ)
  targets : T

/-- What the statements do to the target tables: a batch of ops, the backfill of a snapshot, and the
schema dropped. -/
structure Effects (T F : Type) where
  flush : List (Op F) → T → Except Error T
  backfill : List (SealedTxn F) → T → Except Error T
  dropped : T

namespace Server

variable {ι T F : Type} (s : Server ι T F)

def row : Option ℕ := s.checkpoint.join

def published : Option (Set Sql.TableName) := s.publication.map fun tables => {t | t ∈ tables}

def upTo (lsn : ℕ) : List (SealedTxn F) := Log.upTo SealedTxn.endLsn s.history lsn

def between (lo hi : ℕ) : List (SealedTxn F) := Log.between SealedTxn.endLsn s.history lo hi

end Server

end WalFlux
