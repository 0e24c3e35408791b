import Emwin.Library.Utf8

/-! Persistence requests, the blobs they hold, and the errors of storage backends. -/

namespace Emwin.Db
open Library

inductive BlobRole where
  | payload
  | metadataSidecar
  deriving DecidableEq, Repr

structure BlobEntry where
  role : BlobRole
  relativePath : Text
  bytes : Bytes
  contentType : Option Text
  deriving DecidableEq, Repr

inductive BlobStorageKind where
  | filesystem
  | s3
  deriving DecidableEq, Repr

/-- The reference that a backend returns for a written blob. -/
structure StoredBlob where
  kind : BlobStorageKind
  role : BlobRole
  location : Text
  sizeBytes : Nat
  contentType : Option Text
  deriving DecidableEq, Repr

/-- `std::io::ErrorKind`, as far as the retry rule tells the kinds apart. -/
inductive IoErrorKind where
  | connectionRefused
  | connectionReset
  | connectionAborted
  | notConnected
  | brokenPipe
  | timedOut
  | interrupted
  | writeZero
  | unexpectedEof
  | storageFull
  | other
  deriving DecidableEq, Repr

/-- `sqlx::Error`, as far as the retry rule tells the errors apart. -/
inductive SqlxErrorKind where
  | io
  | tls
  | poolTimedOut
  | poolClosed
  | workerCrashed
  | other
  deriving DecidableEq, Repr

inductive PersistError where
  | io (kind : IoErrorKind)
  | join
  | json
  | sqlx (kind : SqlxErrorKind)
  | migration
  | s3 (operation : Text) (retryable : Bool) (message : Text)
  | closed
  | invalidConfig (message : Text)
  | invalidRequest (message : Text)
  deriving DecidableEq, Repr

/-- Whether the operation should be retried after a backoff delay. -/
def PersistError.isRetryable : PersistError → Bool
  | .io kind => kind ≠ .other
  | .sqlx kind => kind ≠ .other
  | .s3 _ retryable _ => retryable
  | .join | .json | .migration | .closed | .invalidConfig _ | .invalidRequest _ => false

abbrev PersistResult (α : Type) := Except PersistError α

structure PersistRequest (M : Type) where
  requestKey : Text
  metadata : M
  blobs : List BlobEntry
  deriving DecidableEq, Repr

/-- What the metadata sink is given once the blobs are written. -/
structure PersistedRequest (M : Type) where
  requestKey : Text
  metadata : M
  blobs : List StoredBlob
  deriving DecidableEq, Repr

end Emwin.Db
