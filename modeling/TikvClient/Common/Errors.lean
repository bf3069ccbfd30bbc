import TikvClient.Proto.Kvrpc

/-!
# Client errors

The cases of `common::Error` the modelled code returns or inspects.  Text is kept where
the code writes it; a payload that only carries data for a message (a conflict, a deadlock)
is kept as the kind of the key error it comes from.

Two constructors stand for things Rust expresses differently.  `panicked` is an assertion of
the client that fails (the task unwinds), and `displayed e` is
`Error::StringError(e.to_string())`, which `ExtractError` builds from an error that sits in a
result list.
-/

namespace TikvClient

open Proto

/-- **An error of the client.** -/
inductive Error where
  /-- `Error::Grpc`: the transport failed (`tonic::transport::Error`). -/
  | grpc
  /-- `Error::GrpcAPI`: the call ended with a gRPC status (`tonic::Status`). -/
  | grpcAPI
  | duplicateKeyInsertion
  | keyError (e : KeyError)
  | regionError (e : RegionError)
  | commitTsLag (commitTs waitUntilTso : ℕ)
  | resolveLockError (locks : List LockInfo)
  | invalidTransactionType
  | operationAfterCommitError
  | noPrimaryKey
  | writeConflictInLatch (startTs : ℕ)
  | invalidPipelinedTransaction (message : String)
  | invalidPessimisticLockOptions (message : String)
  | leaderNotFound (region : RegionVerId)
  | undeterminedError (inner : Error)
  | extractedErrors (errors : List Error)
  | multipleKeyErrors (errors : List Error)
  | pessimisticLockError (inner : Error) (successKeys : List Key)
  /-- `internal_err!`, without the file and the line it puts before its message. -/
  | internalError (message : String)
  | kvError (message : String)
  | unsupportedMode
  | maxScanLimitExceeded (limit maxLimit : ℕ)
  | stringError (message : String)
  | displayed (inner : Error)
  /-- Any other error of PD, the region cache, the store client or a task join. -/
  | other (code : ℕ)
  | panicked (message : String)

namespace Error

/-- `is_grpc_error`: the attempt may have been executed without its response arriving. -/
def isGrpcError : Error → Bool
  | .grpc => true
  | .grpcAPI => true
  | _ => false

/-- Whether this is `Error::Grpc`, the only error that marks a commit as undetermined. -/
def isGrpc : Error → Bool
  | .grpc => true
  | _ => false

/-- The errors of a list of key errors, `none` when there is none (`extract_errors`). -/
def extractErrors (es : List KeyError) : Option (List Error) :=
  if es.isEmpty then none else some (es.map .keyError)

end Error

lemma exists_of_map_eq_ok {α β : Type} {x : Except Error α} {g : α → β} {y : β}
    (h : x.map g = .ok y) : ∃ a, x = .ok a ∧ g a = y := by
  cases x with
  | error e => cases h
  | ok a => exact ⟨a, rfl, Except.ok.inj h⟩

section Bind

variable {α β : Type} {x : Except Error α} {f : α → Except Error β}

lemma exists_bind_iff : (∃ b, (x >>= f) = .ok b) ↔ ∃ a, x = .ok a ∧ ∃ b, f a = .ok b := by
  cases x with
  | error e => exact iff_of_false (fun ⟨_, h⟩ => by cases h) fun ⟨_, h, _⟩ => by cases h
  | ok a => exact ⟨fun h => ⟨a, rfl, h⟩, fun ⟨_, ha, h⟩ => Except.ok.inj ha ▸ h⟩

lemma error_of_bind {e : Error} (h : (x >>= f) = .error e) :
    x = .error e ∨ ∃ a, x = .ok a ∧ f a = .error e := by
  cases x with
  | error e' =>
    cases h
    exact .inl rfl
  | ok a => exact .inr ⟨a, rfl, h⟩

end Bind

end TikvClient
