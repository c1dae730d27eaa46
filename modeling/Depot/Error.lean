import Depot.Format
import Depot.Role

/-!
# Errors

Every store fails with one of these causes, whatever it keeps its data in. A cause carries what its
message is made of, and `Error.message` is the only place where a cause is worded.
-/

namespace Depot

inductive Error
  /-- The key, record or object does not exist. -/
  | notFound (key : String)
  /-- A unique column or key already holds the value. -/
  | duplicate (detail : String)
  /-- Another writer changed what a transaction wrote. -/
  | conflict (detail : String)
  /-- A row breaks a rule of its table other than uniqueness. -/
  | constraint (detail : String)
  /-- A key that is empty or does not fit the key column. -/
  | invalidKey (detail : String)
  | readOnly
  | tableExists (table : String)
  | tableNotFound (table : String)
  /-- The store cannot expire keys. -/
  | ttlNotSupported
  | dimensionMismatch (expected actual : Nat)
  | invalidVector (detail : String)
  | indexNotReady
  /-- A filter or statement makes no sense for the record type. -/
  | invalidQuery (detail : String)
  /-- The store cannot evaluate this kind of filter clause. -/
  | operatorNotSupported (operator : String)
  /-- The store cannot list by metadata alone. -/
  | filterNotSupported
  | noPrimaryKey (typeName : String)
  | multiplePrimaryKeys (typeName : String) (fields : List String)
  | invalidSpec (typeName : String) (detail : String)
  /-- Stored data could not be turned back into a record. -/
  | decode (format : Format) (detail : String)
  /-- A record could not be turned into stored data. -/
  | encode (format : Format) (detail : String)
  /-- A hook failed; after a role that is post-commit the store has done its work. -/
  | hook (role : Role) (source : String)
  | cancelled
  | deadlineExceeded
  /-- The backend failed with no closer cause. -/
  | transport (source : String)
deriving DecidableEq

namespace Error

def message : Error → String
  | notFound key => "not found: " ++ key
  | duplicate detail => "duplicate: " ++ detail
  | conflict detail => "conflict: " ++ detail
  | constraint detail => "constraint violated: " ++ detail
  | invalidKey detail => "invalid key: " ++ detail
  | readOnly => "store is read-only"
  | tableExists table => "table already exists: " ++ table
  | tableNotFound table => "table not found: " ++ table
  | ttlNotSupported => "ttl not supported by this provider"
  | dimensionMismatch expected actual =>
    "dimension mismatch: expected " ++ toString expected ++ ", got " ++ toString actual
  | invalidVector detail => "invalid vector: " ++ detail
  | indexNotReady => "index not ready"
  | invalidQuery detail => "invalid query: " ++ detail
  | operatorNotSupported operator => "operator not supported: " ++ operator
  | filterNotSupported => "filter not supported by this provider"
  | noPrimaryKey typeName => "no primary key declared for " ++ typeName
  | multiplePrimaryKeys typeName fields =>
    "multiple primary keys declared for " ++ typeName ++ ": " ++ ", ".intercalate fields
  | invalidSpec typeName detail => "invalid spec for " ++ typeName ++ ": " ++ detail
  | decode format detail => "decode error (" ++ format.mediaType ++ "): " ++ detail
  | encode format detail => "encode error (" ++ format.mediaType ++ "): " ++ detail
  | hook role source => role.name ++ " hook failed: " ++ source
  | cancelled => "operation cancelled"
  | deadlineExceeded => "deadline exceeded"
  | transport source => "transport error: " ++ source

/-- The name of the kind of a cause, for callers that tell causes apart without their wording. -/
def kindName : Error → String
  | notFound _ => "NotFound"
  | duplicate _ => "Duplicate"
  | conflict _ => "Conflict"
  | constraint _ => "Constraint"
  | invalidKey _ => "InvalidKey"
  | readOnly => "ReadOnly"
  | tableExists _ => "TableExists"
  | tableNotFound _ => "TableNotFound"
  | ttlNotSupported => "TtlNotSupported"
  | dimensionMismatch .. => "DimensionMismatch"
  | invalidVector _ => "InvalidVector"
  | indexNotReady => "IndexNotReady"
  | invalidQuery _ => "InvalidQuery"
  | operatorNotSupported _ => "OperatorNotSupported"
  | filterNotSupported => "FilterNotSupported"
  | noPrimaryKey _ => "NoPrimaryKey"
  | multiplePrimaryKeys .. => "MultiplePrimaryKeys"
  | invalidSpec .. => "InvalidSpec"
  | decode .. => "Decode"
  | encode .. => "Encode"
  | hook .. => "Hook"
  | cancelled => "Cancelled"
  | deadlineExceeded => "DeadlineExceeded"
  | transport _ => "Transport"

def isNotFound : Error → Bool
  | notFound _ => true
  | _ => false

/-- Whether the error is a hook's that ran after the store had done its work. -/
def isPostCommit : Error → Bool
  | hook role _ => role.isPostCommit
  | _ => false

/-- The text of the failure underneath, where there is one. -/
def source? : Error → Option String
  | hook _ source => some source
  | transport source => some source
  | _ => none

end Error

end Depot
