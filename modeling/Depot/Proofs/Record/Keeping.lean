import Depot.Proofs.Record.Write
import Depot.Proofs.Session.Run

/-!
# What operations keep

Hooks, checks and conversions leave the backend alone (`Call.Prepares`), so an operation keeps a property
of the backend as soon as the calls of its provider do (`Call.keeps_stages`). What a call of the provider
is made with was prepared before it, and may be known from there (`Call.Prepares.keeps_bind`). What each
operation keeps, a run of them keeps (`Step.runsKeep`).
-/

namespace Depot

namespace Call

variable {σ α β π : Type} {P : σ → Prop} {Q : α → Prop} {R : β → Prop} {ctx : Context}

/-- The call leaves the backend alone, and answers as said. -/
structure Prepares (call : Call σ α) (Q : α → Prop) : Prop where
  backend : ∀ s, (call s).2.backend = s.backend
  answer : ∀ s a, (call s).1 = .ok a → Q a

theorem prepares_of_quietly {call : Call σ α} (h : ∀ s, call.Quietly s Q) : call.Prepares Q :=
  ⟨fun s => (h s).leads.backend, fun s => (h s).answer⟩

theorem prepares_of_answers {call : Call σ α} (h : ∀ s, call.Answers s Q) : call.Prepares Q :=
  prepares_of_quietly fun s => (h s).quietly

theorem prepares_pure {a : α} (h : Q a) : (pure a : Call σ α).Prepares Q :=
  prepares_of_answers fun _ => answers_pure h

theorem prepares_lift {result : Except Error α} (h : ∀ a, result = .ok a → Q a) :
    (lift result : Call σ α).Prepares Q where
  backend s := by rw [lift_apply]
  answer s a made := by
    rw [lift_apply] at made
    exact h a made

theorem prepares_check (ctx : Context) : (check ctx : Call σ Unit).Prepares fun _ => True :=
  prepares_of_quietly fun _ => quietly_check ctx

theorem Prepares.bind {call : Call σ α} {next : α → Call σ β} (h : call.Prepares Q)
    (rest : ∀ a, Q a → (next a).Prepares R) : (call >>= next).Prepares R := by
  have result (s : Session σ) : ((call >>= next) s).2.backend = s.backend ∧
      ∀ b, ((call >>= next) s).1 = .ok b → R b := by
    have before := h.backend s
    have answer := h.answer s
    rw [bind_apply]
    cases made : call s with
    | mk outcome t =>
        rw [made] at before answer
        cases outcome with
        | error e => exact ⟨before, fun _ failed => by cases failed⟩
        | ok a =>
            have later := rest a (answer a rfl)
            exact ⟨(later.backend t).trans before, later.answer t⟩
  exact ⟨fun s => (result s).1, fun s => (result s).2⟩

/-- What comes before the commit keeps everything. -/
theorem Prepares.keeps {call : Call σ α} (h : call.Prepares Q) : call.Keeps P := by
  intro s holds
  rwa [h.backend]

/-- A call keeps a property of the backend if it does so for all that its preparation may answer. -/
theorem Prepares.keeps_bind {call : Call σ α} {next : α → Call σ β} (h : call.Prepares Q)
    (rest : ∀ a, Q a → (next a).Keeps P) : (call >>= next).Keeps P := by
  intro s holds
  have before := h.backend s
  have answer := h.answer s
  rw [bind_apply]
  cases made : call s with
  | mk outcome t =>
      rw [made] at before answer
      have holds : P t.backend := before ▸ holds
      cases outcome with
      | error e => exact holds
      | ok a => exact rest a (answer a rfl) t holds

theorem Keeps.map {call : Call σ α} (h : call.Keeps P) (f : α → β) : (f <$> call).Keeps P := by
  intro s holds
  rw [map_apply]
  exact h s holds

/-- A computation that may fail hands on what it gives. -/
theorem keeps_lift_bind {result : Except Error α} {next : α → Call σ β}
    (h : ∀ a, result = .ok a → (next a).Keeps P) : (lift result >>= next).Keeps P :=
  (prepares_lift fun _ made => made).keeps_bind h

theorem keeps_under {f : Time → σ → Except Error α × σ} (h : ∀ now b, P b → P (f now b).2) :
    (under ctx f).Keeps P := by
  intro s holds
  cases refused : s.refusal? ctx with
  | some e => rwa [under_of_refusal f refused]
  | none =>
      rw [under_of_live f refused]
      exact h s.now s.backend holds

/-- A change that takes place if a check passes. -/
theorem keeps_changeIf {check : Time → σ → Except Error β} {change : Time → σ → β → σ}
    (h : ∀ now b x, P b → P (change now b x)) :
    (under ctx fun now b => changeIf (check now b) (change now b) b).Keeps P := by
  refine keeps_under fun now b holds => ?_
  cases checked : check now b with
  | error e => exact holds
  | ok x => exact h now b x holds

/-- A write keeps what its call of the provider keeps, made with what was prepared for it. -/
theorem keeps_stages {prepare : Call σ π} {commit : π → Call σ Unit}
    {late : π → Call σ (Except Error Unit)} {Q : π → Prop} (prepared : prepare.Prepares Q)
    (committed : ∀ p, Q p → (commit p).Keeps P) (hooks : ∀ p s, (late p).Answers s Late) :
    (stages prepare commit late).Keeps P :=
  prepared.keeps_bind fun p known => (committed p known).bind fun _ =>
    (prepares_of_answers (hooks p)).keeps_bind fun _ _ => keeps_lift _

end Call

namespace Model

variable {ρ σ : Type} {P : σ → Prop} {ctx : Context}

/-- A hook leaves the backend alone, whatever the occasion. -/
theorem prepares_dispatch {α : Type} (m : Model ρ) (role : Role) (key : String) (idle : α)
    (hook : Occasion → HookRun α) :
    (m.dispatch role ctx key idle hook : Call σ _).Prepares fun _ => True :=
  Call.prepares_of_answers fun _ => (m.dispatch_answers role key idle hook).mono fun _ _ => trivial

theorem prepares_beforeSave (m : Model ρ) (key : String) (record : ρ) :
    (m.beforeSave ctx key record : Call σ _).Prepares fun _ => True :=
  m.prepares_dispatch .beforeSave key record _

theorem keeps_afterLoad (m : Model ρ) (key : String) (record : ρ) :
    (m.afterLoad ctx key record).Keeps P :=
  (m.prepares_dispatch .afterLoad key record _).keeps_bind fun _ _ =>
    (Call.keeps_lift _).bind fun _ => Call.keeps_pure _

end Model

/-! ### Keys -/

/-- The call that refuses an empty key. -/
def Call.refuseKey {σ α : Type} : Call σ α := Call.fail (.invalidKey "key is empty")

theorem checkKeys_eq (keys : List String) :
    checkKeys keys = if "" ∈ keys then .error (.invalidKey "key is empty") else .ok () := by
  induction keys with
  | nil => rfl
  | cons key rest ih =>
      have step : checkKeys (key :: rest) = (checkKey key >>= fun _ => checkKeys rest) := rfl
      rw [step, ih, checkKey]
      by_cases empty : key = ""
      · subst empty
        rw [if_pos rfl, if_pos List.mem_cons_self]
        rfl
      · have same : "" ∈ key :: rest ↔ "" ∈ rest := by simp [Ne.symm empty]
        simp only [if_neg empty, same]
        rfl

namespace Call

variable {σ α : Type} {P : σ → Prop} {Q : α → Prop} {ctx : Context}

theorem prepares_key (key : String) : (lift (checkKey key) : Call σ Unit).Prepares fun _ => key ≠ "" :=
  prepares_lift fun _ passed => ne_of_checkKey_eq_ok passed

theorem prepares_keys (keys : List String) :
    (lift (checkKeys keys) : Call σ Unit).Prepares fun _ => "" ∉ keys := by
  refine prepares_lift fun _ passed empty => ?_
  rw [checkKeys_eq, if_pos empty] at passed
  cases passed

/-- A call under a key that is checked first, and the context after it. -/
theorem keeps_checks {key : String} {call : Call σ α} (h : key ≠ "" → call.Keeps P) :
    (do
      lift (checkKey key)
      check ctx
      call).Keeps P :=
  (prepares_key key).keeps_bind fun _ named => (keeps_check ctx).bind fun _ => h named

theorem prepares_checks {key : String} {call : Call σ α} (h : key ≠ "" → call.Prepares Q) :
    (do
      lift (checkKey key)
      check ctx
      call).Prepares Q :=
  (prepares_key key).bind fun _ named => (prepares_check ctx).bind fun _ _ => h named

end Call

/-- The hook before a delete runs under a key that is not empty. -/
theorem Model.prepares_beforeDelete {ρ σ : Type} (m : Model ρ) (ctx : Context) (key : String) :
    (do
      Call.lift (checkKey key)
      Call.check ctx
      m.beforeDelete ctx key : Call σ Unit).Prepares fun _ => key ≠ "" := by
  refine Call.prepares_checks fun named => ?_
  exact ⟨fun s => (m.beforeDelete_quietly key).leads.backend, fun _ _ _ => named⟩

/-! ### Runs -/

/-- Every run of operations of a kind keeps a property of the backend. -/
def Step.RunsKeep {σ : Type} (IsUse : (Context → Call σ Unit) → Prop) (P : σ → Prop) : Prop :=
  ∀ (steps : List (Step (Context → Call σ Unit))) (s : Session σ),
    (∀ ctx f, .call ctx f ∈ steps → IsUse f) → P s.backend →
      P (Step.run (fun ctx f => f ctx) steps s).backend

/-- What every operation of a run keeps, the run keeps. -/
theorem Step.runsKeep {σ : Type} {IsUse : (Context → Call σ Unit) → Prop} {P : σ → Prop}
    (keeps : ∀ f, IsUse f → ∀ ctx, (f ctx).Keeps P) : Step.RunsKeep IsUse P := by
  intro steps s uses start
  induction steps generalizing s with
  | nil => exact start
  | cons step rest ih =>
      refine ih _ (fun ctx f mem => uses ctx f (List.mem_cons_of_mem step mem)) ?_
      cases step with
      | call ctx f => exact keeps f (uses ctx f List.mem_cons_self) ctx s start
      | wait span => exact start
      | cancel ctx => exact (s.leads_cancel ctx).backend ▸ start

end Depot
