/-!
# Roles of hooks

A record type may run code at five points of its life in a store. Three of them lie after the
store has done its work, so a failure there reports an operation that took effect.
-/

namespace Depot

/-- A point at which a record type may run code. -/
inductive Role
  | beforeSave
  | afterSave
  | afterLoad
  | beforeDelete
  | afterDelete
deriving DecidableEq

namespace Role

/-- Every role, in the order in which a record meets them. -/
def all : List Role := [beforeSave, afterSave, afterLoad, beforeDelete, afterDelete]

/-- Whether the role comes after the store has done its work. -/
def isPostCommit : Role → Bool
  | afterSave | afterLoad | afterDelete => true
  | beforeSave | beforeDelete => false

def name : Role → String
  | beforeSave => "before_save"
  | afterSave => "after_save"
  | afterLoad => "after_load"
  | beforeDelete => "before_delete"
  | afterDelete => "after_delete"

theorem mem_all (r : Role) : r ∈ all := by
  cases r <;> decide

end Role

end Depot
