import Depot.Proofs.Blob.Holding
import Depot.Proofs.Record.ReadBack

/-!
# What is known about an object that was put

A put takes its object by reference: it fills in the content type and the size, calls the provider, and
then takes over what the provider recorded. So a put can end in three ways (`RecordBucket.Ends`). If it
is refused before it comes to the provider, what is known about the object is what the caller said. If
the provider fails, the object keeps what was filled in, although nothing was written
(`announced_eq_self_iff` says when that is what the caller said). And if the write takes effect, the
object is known as a later get knows it.
-/

namespace Depot

namespace RecordBucket

variable {ρ σ : Type} {bucket : RecordBucket ρ σ} {ctx : Context} {info after : ObjectInfo}
  {encoded : Except Error (List UInt8)} {s t u : Session σ} {outcome : Except Error Unit}

/-- How a put of encoded data ends, and what is known about the object then. -/
inductive Ends (bucket : RecordBucket ρ σ) (ctx : Context) (info : ObjectInfo)
    (encoded : Except Error (List UInt8)) (s t : Session σ) : Except Error Unit → ObjectInfo → Prop
  /-- The put does not come to its provider. -/
  | refused {e : Error} (led : s.Leads t) (early : Early encoded → e.isPostCommit = false) :
      Ends bucket ctx info encoded s t (.error e) info
  /-- The provider fails. -/
  | failed {bytes : List UInt8} {u : Session σ} {e : Error} (written : encoded = .ok bytes)
      (led : s.Leads u)
      (called : bucket.provider.put ctx info.key bytes (bucket.announced info bytes) u = (.error e, t)) :
      Ends bucket ctx info encoded s t (.error e) (bucket.announced info bytes)
  /-- The write takes effect, whatever the hook after it says. -/
  | took {bytes : List UInt8} {u v : Session σ} {recorded : ObjectInfo} {outcome : Except Error Unit}
      (written : encoded = .ok bytes) (led : s.Leads u)
      (called : bucket.provider.put ctx info.key bytes (bucket.announced info bytes) u =
        (.ok recorded, v))
      (late : Late outcome) (rest : v.Leads t) :
      Ends bucket ctx info encoded s t outcome recorded

/-- A call of a put ends in one of these ways. -/
def EndsWith {α : Type} (bucket : RecordBucket ρ σ) (ctx : Context) (info : ObjectInfo)
    (encoded : Except Error (List UInt8)) (s : Session σ)
    (run : Except Error (PutResult α) × Session σ) : Prop :=
  ∃ p, run.1 = .ok p ∧ bucket.Ends ctx info encoded s run.2 p.outcome p.object.info

/-- What is filled in before a write is nothing new if the caller has said a content type, or there is
none to be said, and the right size. -/
theorem announced_eq_self_iff {bytes : List UInt8} :
    bucket.announced info bytes = info ↔ info.size = bytes.length ∧
      (info.contentType = "" → bucket.codec.format.mediaType = "") := by
  obtain ⟨key, contentType, size, etag, metadata, lastModified⟩ := info
  simp only [announced, ObjectInfo.mk.injEq, true_and, and_true]
  constructor
  · rintro ⟨type, length⟩
    refine ⟨length.symm, fun none => ?_⟩
    rw [if_pos none] at type
    exact type.trans none
  · rintro ⟨length, type⟩
    refine ⟨?_, length.symm⟩
    split
    · next none => exact (type none).trans none.symm
    · rfl

/-- The checks of a put leave the session as it is. -/
theorem exists_checked (ctx : Context) (key : String) (s : Session σ) :
    ∃ result, (underKey ctx key (pure ()) : Call σ Unit) s = (result, s) ∧ Early result := by
  have checks : (underKey ctx key (pure ()) : Call σ Unit).Quietly s fun _ => True :=
    quietly_checks (Call.answers_pure trivial).quietly
  have same : ((underKey ctx key (pure ()) : Call σ Unit) s).2 = s := by
    rw [underKey, Call.bind_apply, Call.lift_apply]
    cases checkKey key with
    | error e => rfl
    | ok _ =>
        cases refused : s.refusal? ctx with
        | some e => exact congrArg Prod.snd (Call.check_bind_of_refusal refused _)
        | none => exact congrArg Prod.snd (Call.check_bind_of_live refused _)
  exact ⟨_, Prod.ext rfl same, checks.early⟩

theorem endsWith_put (object : ObjectOf ρ) (s : Session σ) :
    bucket.EndsWith ctx object.info (bucket.encode (bucket.model.saved (s.occasion ctx) object.data)) s
      (bucket.put ctx object s) := by
  unfold put
  dsimp only
  rw [Call.bind_apply, Call.attempt_apply]
  obtain ⟨e | _, checked, early⟩ := exists_checked ctx object.info.key s
  · rw [checked]
    exact ⟨_, rfl, .refused (.refl s) fun _ => early e rfl⟩
  rw [checked]
  have before : (bucket.model.beforeSave ctx object.info.key object.data).Answers s _ :=
    bucket.model.beforeSave_answers object.info.key object.data
  obtain ⟨⟨record, ready⟩, u, ran, led, rfl, early⟩ := before
  dsimp only
  rw [Call.bind_apply, ran]
  dsimp only
  cases made : ready.bind fun _ => bucket.codec.encode
      (bucket.model.toValue (bucket.model.saved (s.occasion ctx) object.data)) with
  | error e =>
      exact ⟨_, rfl, .refused led fun whole => (early.bind fun _ => whole) e made⟩
  | ok bytes =>
      obtain ⟨_, _, written⟩ := Fallible.bind_eq_ok_iff.1 made
      dsimp only
      rw [Call.bind_apply, store_apply]
      rcases called : bucket.provider.put ctx object.info.key bytes
        (bucket.announced object.info bytes) u with ⟨e | recorded, v⟩
      · exact ⟨_, rfl, .failed written led called⟩
      · have after : (bucket.model.afterSave ctx object.info.key
            (bucket.model.saved (s.occasion ctx) object.data)).Answers v _ :=
          bucket.model.afterSave_answers object.info.key _
        obtain ⟨outcome, w, ran, rest, late⟩ := after
        dsimp only
        rw [Call.bind_apply, ran]
        exact ⟨_, rfl, .took written led called late rest⟩

theorem endsWith_putEncoded {α : Type} (object : ObjectOf α) (encoded : Except Error (List UInt8))
    (s : Session σ) :
    bucket.EndsWith ctx object.info encoded s (bucket.putEncoded ctx object encoded s) := by
  unfold putEncoded
  rw [Call.bind_apply, Call.attempt_apply]
  obtain ⟨e | _, checked, early⟩ := exists_checked ctx object.info.key s
  · rw [checked]
    exact ⟨_, rfl, .refused (.refl s) fun _ => early e rfl⟩
  rw [checked]
  cases encoded with
  | error e => exact ⟨_, rfl, .refused (.refl s) fun whole => whole e rfl⟩
  | ok bytes =>
      dsimp only
      rw [Call.bind_apply, store_apply]
      rcases called : bucket.provider.put ctx object.info.key bytes
        (bucket.announced object.info bytes) s with ⟨e | recorded, v⟩
      · exact ⟨_, rfl, .failed rfl (.refl s) called⟩
      · exact ⟨_, rfl, .took rfl (.refl s) called .ok (.refl v)⟩

theorem endsWith_putAtom (object : ObjectOf Atom) (s : Session σ) :
    bucket.EndsWith ctx object.info (bucket.encodeAtom object.data) s (bucket.putAtom ctx object s) :=
  endsWith_putEncoded object (bucket.encodeAtom object.data) s

/-! ### In memory -/

/-- An object that is made of what the provider has is known as the provider says. -/
theorem info_of_underKey {α : Type} {key : String} {object : ObjectOf α}
    {next : List UInt8 × ObjectInfo → Call σ (ObjectOf α)}
    (keeps : ∀ r t made, (next r t).1 = .ok made → made.info = r.2)
    (got : (underKey ctx key (bucket.provider.get ctx key >>= next) s).1 = .ok object) :
    ∃ bytes, (bucket.provider.get ctx key s).1 = .ok (bytes, object.info) := by
  obtain ⟨_, _, got⟩ := Call.of_lift_bind_eq_ok got
  obtain ⟨r, t, asked, got⟩ := Call.of_bind_eq_ok (Call.of_check_bind_eq_ok got)
  rw [asked, keeps r t object got]
  exact ⟨r.1, rfl⟩

theorem info_of_get {key : String} {object : ObjectOf ρ}
    (got : (bucket.get ctx key s).1 = .ok object) :
    ∃ bytes, (bucket.provider.get ctx key s).1 = .ok (bytes, object.info) := by
  refine info_of_underKey (fun r t made done => ?_) got
  obtain ⟨record, _, done⟩ := Call.of_lift_bind_eq_ok done
  obtain ⟨_, _, _, done⟩ := Call.of_bind_eq_ok done
  cases done
  rfl

theorem info_of_getAtom {key : String} {object : ObjectOf Atom}
    (got : (bucket.getAtom ctx key s).1 = .ok object) :
    ∃ bytes, (bucket.provider.get ctx key s).1 = .ok (bytes, object.info) := by
  refine info_of_underKey (fun r t made done => ?_) got
  obtain ⟨a, _, done⟩ := Call.of_lift_bind_eq_ok done
  cases done
  rfl

/-- In memory a write that took effect left the object under its key, as it is known afterwards. -/
theorem Ends.get_memory {bucket : RecordBucket ρ Blob.Memory} {s t : Session Blob.Memory}
    (memory : bucket.provider = Blob.Memory.provider)
    (h : bucket.Ends ctx info encoded s t outcome after) (honest : Early encoded)
    (effect : tookEffect outcome = true) :
    ∃ bytes, encoded = .ok bytes ∧ after.contentType = (bucket.announced info bytes).contentType ∧
      ∀ other, t.refusal? other = none →
        (Blob.Memory.get other info.key t).1 = .ok (bytes, after) := by
  cases h with
  | refused led early => exact absurd (effect.symm.trans (early honest)) (by decide)
  | failed written led called =>
      rw [memory] at called
      have early := ((Blob.Memory.sound.put _ _ _ _).of_error called).1
      exact absurd (effect.symm.trans early) (by decide)
  | took written led called late rest =>
      next bytes u v =>
      have put : Blob.Memory.put ctx info.key bytes (bucket.announced info bytes) u = (.ok after, v) := by
        rwa [memory] at called
      rw [Blob.Memory.put_eq] at put
      cases refused : u.refusal? ctx with
      | some e =>
          rw [Call.under_of_refusal _ refused] at put
          cases put
      | none =>
          rw [Call.under_of_live _ refused] at put
          cases put
          refine ⟨bytes, written, rfl, fun other live => ?_⟩
          rw [Blob.Memory.get_eq, Call.reading_of_live _ live, rest.backend]
          dsimp only [Session.backend_withBackend]
          rw [Dict.get?_insert_self]

/-- After a put that is refused before it comes to its provider, in either view, what is known about the
object is what the caller said. After one whose provider failed it is that with the content type and the
size filled in, so it is what the caller said only if these were right already. After one that took
effect in memory, also if only the hook after it failed, it is what any later get reads, and the content
type is that of the codec if the caller said none. -/
theorem put_leaves_info (bucket : RecordBucket ρ σ) (ctx : Context) (s : Session σ) :
    (∀ object : ObjectOf ρ, bucket.EndsWith ctx object.info
        (bucket.encode (bucket.model.saved (s.occasion ctx) object.data)) s (bucket.put ctx object s)) ∧
      (∀ object : ObjectOf Atom, bucket.EndsWith ctx object.info (bucket.encodeAtom object.data) s
        (bucket.putAtom ctx object s)) ∧
      (∀ info bytes, bucket.announced info bytes = info ↔ info.size = bytes.length ∧
        (info.contentType = "" → bucket.codec.format.mediaType = "")) ∧
      ∀ own : RecordBucket ρ Blob.Memory, own.provider = Blob.Memory.provider →
        ∀ info encoded s t outcome after, own.Ends ctx info encoded s t outcome after →
          Early encoded → tookEffect outcome = true → ∃ bytes, encoded = .ok bytes ∧
            after.contentType = (own.announced info bytes).contentType ∧
            ∀ other, t.refusal? other = none →
              (Blob.Memory.get other info.key t).1 = .ok (bytes, after) ∧
              (∀ object, (own.get other info.key t).1 = .ok object → object.info = after) ∧
              ∀ object, (own.getAtom other info.key t).1 = .ok object → object.info = after := by
  refine ⟨fun object => endsWith_put object s, fun object => endsWith_putAtom object s,
    fun info bytes => announced_eq_self_iff, ?_⟩
  intro own memory info encoded s t outcome after ends honest effect
  obtain ⟨bytes, written, type, reads⟩ := ends.get_memory memory honest effect
  refine ⟨bytes, written, type, fun other live => ?_⟩
  have read := reads other live
  have known {found : ObjectInfo}
      (got : ∃ bytes, (own.provider.get other info.key t).1 = .ok (bytes, found)) : found = after := by
    obtain ⟨_, got⟩ := got
    rw [memory] at got
    exact (Prod.mk.inj (Except.ok.inj (got.symm.trans read))).2
  exact ⟨read, fun _ got => known (info_of_get got), fun _ got => known (info_of_getAtom got)⟩

end RecordBucket

/-! ### Orders that are still open -/

namespace OpenOrders

/-- The hook before a save closes an order that is still open, and cancels. -/
def model : Model (Dict Cell) :=
  Orders.layout.model { typeName := "Order", package := Catalog.package, fields := Orders.spec.fields }
    [.beforeSave] { beforeSave := fun _ record =>
      match record.get? "status" with
      | some (.text "open") => ⟨record.insert "status" (.text "paid"), [], true, none⟩
      | _ => ⟨record, [], false, none⟩ }

def bucket (c : StandardCodec) : RecordBucket (Dict Cell) Blob.Memory := .inMemory model Orders.spec c

/-- A new object with an order in it. -/
def object (status : String) : ObjectOf (Dict Cell) := ⟨{ key := "a" }, Orders.order 1 status⟩

end OpenOrders

namespace RecordBucket

theorem put_leaves_info_paid :
    ∃ p t, (OpenOrders.bucket .json).put Orders.context (OpenOrders.object "paid") { backend := {} } =
        (.ok p, t) ∧
      p.outcome = .ok () ∧ p.object.info.contentType = "application/json" ∧
      ∃ bytes, (Blob.Memory.get Orders.context "a" t).1 = .ok (bytes, p.object.info) := by
  let run := (OpenOrders.bucket .json).put Orders.context (OpenOrders.object "paid") { backend := {} }
  obtain ⟨puts, -, -, reads⟩ :=
    put_leaves_info (OpenOrders.bucket .json) Orders.context { backend := {} }
  obtain ⟨p, ran, ends⟩ := puts (OpenOrders.object "paid")
  have done : run.1.map PutResult.outcome = .ok (.ok ()) := rfl
  rw [show run.1 = .ok p from ran] at done
  have whole : p.outcome = .ok () := Except.ok.inj done
  have early (record : Dict Cell) : Early ((OpenOrders.bucket .json).encode record) :=
    Codec.honest_json _
  obtain ⟨bytes, -, type, known⟩ :=
    reads (OpenOrders.bucket .json) rfl _ _ _ _ _ _ ends (early _) (by rw [whole]; rfl)
  exact ⟨p, run.2, Prod.ext ran rfl, whole, type, bytes, (known Orders.context rfl).1⟩

/-- A put fails, since its hook has cancelled it, but its object keeps the content type of the codec. When
the object is put again with another codec, its content type is still that of the first one. -/
theorem failed_put_leaves_content_type :
    ∃ p t, (OpenOrders.bucket .json).put Orders.context (OpenOrders.object "open") { backend := {} } =
        (.ok p, t) ∧
      p.outcome = .error .cancelled ∧ p.object.info ≠ (OpenOrders.object "open").info ∧
      p.object.info.contentType = "application/json" ∧
      ∃ q, ((OpenOrders.bucket .messagePack).put ⟨1, none⟩ p.object t).1 = .ok q ∧ q.outcome = .ok () ∧
        q.object.info.contentType = "application/json" := by
  refine ⟨_, _, rfl, rfl, ?_, rfl, _, rfl, rfl, rfl⟩
  decide

end RecordBucket

end Depot
