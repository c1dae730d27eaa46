import Depot.Proofs.Blob.Hookless
import Depot.Proofs.Blob.Memory
import Depot.Proofs.Dict.Lookup
import Depot.Proofs.Record.Keeping

/-!
# Keys of buckets

A bucket of records calls its provider under keys that are not empty and under no others, so it keeps
what such calls keep (`RecordBucket.IsUse.keeps`). An operation that is given the empty key refuses it
before its provider or a hook is called (`RecordBucket.refuses_empty`).
-/

namespace Depot

/-- The calls of the provider under keys that are not empty keep a property. -/
structure Blob.Provider.KeepsNamed {σ : Type} (p : Blob.Provider σ) (P : σ → Prop) : Prop where
  get : ∀ ctx key, key ≠ "" → (p.get ctx key).Keeps P
  put : ∀ ctx key bytes info, key ≠ "" → (p.put ctx key bytes info).Keeps P
  delete : ∀ ctx key, key ≠ "" → (p.delete ctx key).Keeps P
  has : ∀ ctx key, key ≠ "" → (p.has ctx key).Keeps P
  list : ∀ ctx start limit, (p.list ctx start limit).Keeps P

namespace RecordBucket

variable {ρ σ : Type} {bucket : RecordBucket ρ σ} {ctx : Context} {P : σ → Prop}

/-- The operations of a bucket, of both views, with their arguments. -/
inductive Use (ρ : Type)
  | write (w : Write ρ)
  | putAtom (object : ObjectOf Atom)
  | deleteAtom (key : String)
  | has (key : String)
  | get (key : String)
  | getAtom (key : String)
  | list (start : String) (limit : Nat)

/-- The outcome of an operation. -/
def Use.run (bucket : RecordBucket ρ σ) (ctx : Context) : Use ρ → Call σ Unit
  | write w => w.run bucket ctx
  | putAtom object => do Call.lift (← bucket.putAtom ctx object).outcome
  | deleteAtom key => bucket.deleteAtom ctx key
  | has key => (fun _ => ()) <$> bucket.has ctx key
  | get key => (fun _ => ()) <$> bucket.get ctx key
  | getAtom key => (fun _ => ()) <$> bucket.getAtom ctx key
  | list start limit => (fun _ => ()) <$> bucket.list ctx start limit

/-! ### What is kept -/

/-- A record is written under the key that its object says. -/
theorem prepares_saving (object : ObjectOf ρ) :
    (bucket.saving ctx object).Prepares fun _ => object.info.key ≠ "" := by
  have checks : (underKey ctx object.info.key (pure ()) : Call σ Unit).Prepares
      fun _ => object.info.key ≠ "" := Call.prepares_checks fun named => Call.prepares_pure named
  refine checks.bind fun _ named => ?_
  refine (bucket.model.prepares_beforeSave _ object.data).bind fun r _ => ?_
  exact (Call.prepares_lift fun _ _ => trivial).bind fun _ _ => Call.prepares_pure named

theorem keeps_putting (h : bucket.provider.KeepsNamed P) {info : ObjectInfo} (named : info.key ≠ "")
    (bytes : List UInt8) : (bucket.putting ctx info bytes).Keeps P :=
  (h.put ctx info.key bytes _ named).map _

/-- What comes of a put whose data is encoded or not, in steps. -/
theorem outcome_putEncoded {α : Type} (object : ObjectOf α) (encoded : Except Error (List UInt8)) :
    (do Call.lift (← bucket.putEncoded ctx object encoded).outcome) =
      underKey ctx object.info.key (do
        let bytes ← Call.lift encoded
        bucket.putting ctx object.info bytes) := by
  refine (Call.attempt_check_bind_lift _ (fun e => ⟨object, .error e⟩) _ PutResult.outcome
    fun _ => rfl).trans ?_
  simp only [underKey, bind_assoc, pure_bind]
  refine congrArg _ (funext fun _ => congrArg _ (funext fun _ => ?_))
  cases encoded with
  | error e => rfl
  | ok bytes =>
      funext s
      dsimp only
      rw [bind_assoc, Call.lift_ok, pure_bind, putting, Call.bind_apply, Call.map_apply, store_apply]
      rcases bucket.provider.put ctx object.info.key bytes (bucket.announced object.info bytes) s with
        ⟨_ | recorded, t⟩ <;> rfl

theorem run_putAtom (object : ObjectOf Atom) :
    (Use.putAtom object).run bucket ctx = underKey ctx object.info.key (do
      let bytes ← Call.lift (bucket.encodeAtom object.data)
      bucket.putting ctx object.info bytes) :=
  outcome_putEncoded object (bucket.encodeAtom object.data)

theorem Write.keeps_run (h : bucket.provider.KeepsNamed P) (w : Write ρ) :
    (w.run bucket ctx).Keeps P := by
  show (w.run (bucket.withAfter bucket.model.afterHooks) ctx).Keeps P
  cases w with
  | put object =>
      rw [run_put]
      exact Call.keeps_stages (prepares_saving object) (fun p named => keeps_putting h named p.2)
        fun _ _ => Model.afterSave_answers _ _ _
  | delete key =>
      rw [run_delete]
      exact Call.keeps_stages (bucket.model.prepares_beforeDelete ctx key)
        (fun _ named => h.delete ctx key named) fun _ _ => Model.afterDelete_answers _ _

/-- An operation keeps what the provider keeps under keys that are not empty. -/
theorem Use.keeps_run (h : bucket.provider.KeepsNamed P) (op : Use ρ) : (op.run bucket ctx).Keeps P := by
  cases op with
  | write w => exact w.keeps_run h
  | putAtom object =>
      rw [run_putAtom]
      exact Call.keeps_checks fun named => (Call.keeps_lift _).bind fun bytes => keeps_putting h named bytes
  | deleteAtom key => exact Call.keeps_checks fun named => h.delete ctx key named
  | has key => exact (Call.keeps_checks fun named => h.has ctx key named).map _
  | get key =>
      exact (Call.keeps_checks fun named => (h.get ctx key named).bind fun _ =>
        (Call.keeps_lift _).bind fun _ => (Model.keeps_afterLoad _ _ _).bind fun _ => Call.keeps_pure _).map _
  | getAtom key =>
      exact (Call.keeps_checks fun named => (h.get ctx key named).bind fun _ =>
        (Call.keeps_lift _).bind fun _ => Call.keeps_pure _).map _
  | list start limit => exact ((Call.keeps_check ctx).bind fun _ => h.list ctx start limit).map _

/-- An operation of some bucket over the provider. -/
def IsUse (p : Blob.Provider σ) (f : Context → Call σ Unit) : Prop :=
  ∃ (ρ : Type) (bucket : RecordBucket ρ σ) (op : Use ρ),
    bucket.provider = p ∧ f = fun ctx => op.run bucket ctx

theorem IsUse.keeps {p : Blob.Provider σ} (h : p.KeepsNamed P) {f : Context → Call σ Unit}
    (use : IsUse p f) (ctx : Context) : (f ctx).Keeps P := by
  obtain ⟨ρ, bucket, op, rfl, rfl⟩ := use
  exact op.keeps_run h

/-! ### What is refused -/

/-- The key that an operation checks before anything else. -/
def Use.key? : Use ρ → Option String
  | write (.put object) => some object.info.key
  | putAtom object => some object.info.key
  | write (.delete key) | deleteAtom key | has key | get key | getAtom key => some key
  | list _ _ => none

/-- The operations of a bucket refuse the empty key. -/
theorem refuses_empty (bucket : RecordBucket ρ σ) (ctx : Context) {op : Use ρ} (given : op.key? = some "") :
    op.run bucket ctx = Call.refuseKey := by
  cases op with
  | write w =>
      show w.run (bucket.withAfter bucket.model.afterHooks) ctx = _
      cases w with
      | put object =>
          have empty : object.info.key = "" := Option.some.inj given
          rw [run_put, stages, saving, empty]
          rfl
      | delete key =>
          obtain rfl := Option.some.inj given
          rw [run_delete]
          rfl
  | putAtom object =>
      have empty : object.info.key = "" := Option.some.inj given
      rw [run_putAtom, empty]
      rfl
  | deleteAtom key | has key | get key | getAtom key =>
      obtain rfl := Option.some.inj given
      rfl
  | list => cases given

end RecordBucket

namespace Blob.Memory

/-- A store in memory holds nothing under the empty key unless it is called under it. -/
theorem keepsNamed : provider.KeepsNamed fun m => m.objects.get? "" = none where
  get ctx key _ := by
    refine (Call.keeps_check ctx).bind fun _ => Call.keeps_backend.bind fun m => ?_
    cases m.objects.get? key with
    | none => exact Call.keeps_fail _
    | some object => exact Call.keeps_pure _
  put ctx key bytes info named := by
    show Call.Keeps _ (put ctx key bytes info)
    rw [put_eq]
    refine Call.keeps_under fun now m absent => ?_
    rw [Dict.get?_insert_of_ne _ (Ne.symm named), absent]
  delete ctx key _ := by
    show Call.Keeps _ (delete ctx key)
    rw [delete_eq]
    exact Call.keeps_changeIf fun now m _ absent => Dict.get?_erase_eq_none absent key
  has ctx key _ := (Call.keeps_check ctx).bind fun _ => Call.keeps_backend.bind fun _ => Call.keeps_pure _
  list ctx start limit :=
    (Call.keeps_check ctx).bind fun _ => Call.keeps_backend.bind fun _ => Call.keeps_pure _

end Blob.Memory

end Depot
