import LedgerTx.Proofs.Intent.Build
import LedgerTx.Proofs.Transaction.Fee

namespace LedgerTx.Intent

/-! # Batches

How actions are put into batches does not matter: a transaction is built from the actions in order.  The
first action that is no operation decides how building fails. -/

variable {a b intent : Intent} {context : Context}

/-! ## Regrouping -/

/-- The ways to put the parts of an intent into other batches.  An empty batch is opened into nothing. -/
inductive Regrouped : Intent → Intent → Prop
  | refl (intent : Intent) : Regrouped intent intent
  | symm {a b : Intent} : Regrouped a b → Regrouped b a
  | trans {a b c : Intent} : Regrouped a b → Regrouped b c → Regrouped a c
  /-- A batch of one part is that part. -/
  | single (part : Intent) : Regrouped (.batch [part]) part
  /-- A batch inside of a batch is opened. -/
  | opened (before parts after : List Intent) :
      Regrouped (.batch (before ++ .batch parts :: after)) (.batch (before ++ (parts ++ after)))
  /-- A part is regrouped where it stands. -/
  | part {a b : Intent} (before after : List Intent) :
      Regrouped a b → Regrouped (.batch (before ++ a :: after)) (.batch (before ++ b :: after))

/-- The actions of parts in a row are those of the first and then those of the others. -/
@[simp]
theorem actionsOf_append (before after : List Intent) :
    actionsOf (before ++ after) = actionsOf before ++ actionsOf after := by
  induction before with
  | nil => rfl
  | cons part before ih => rw [List.cons_append, actionsOf, actionsOf, ih, List.append_assoc]

/-- Regrouping keeps the actions and their order. -/
theorem Regrouped.actions_eq (h : Regrouped a b) : a.actions = b.actions := by
  induction h with
  | refl intent => rfl
  | symm _ ih => exact ih.symm
  | trans _ _ ih ih' => exact ih.trans ih'
  | single part => simp [actions, actionsOf]
  | opened before parts after => simp [actions, actionsOf]
  | part before after _ ih => simp [actions, actionsOf, ih]

mutual

/-- An intent can be regrouped to a single batch of its actions. -/
theorem regrouped_flat (intent : Intent) : Regrouped intent (.batch (intent.actions.map .action)) := by
  cases intent with
  | action a => exact .symm (.single (.action a))
  | batch parts => exact regrouped_flatOf [] parts

/-- The parts that stand behind others can be opened into their actions. -/
theorem regrouped_flatOf (before parts : List Intent) :
    Regrouped (.batch (before ++ parts)) (.batch (before ++ (actionsOf parts).map .action)) := by
  cases parts with
  | nil => exact .refl _
  | cons part parts =>
    -- the first part becomes a batch of actions where it stands, and that batch is opened
    have hpart := Regrouped.part before parts (regrouped_flat part)
    have hopened := Regrouped.opened before (part.actions.map .action) parts
    have hrest := regrouped_flatOf (before ++ part.actions.map .action) parts
    rw [List.append_assoc, List.append_assoc, ← List.map_append] at hrest
    exact (hpart.trans hopened).trans hrest

end

/-- Intents that do the same actions in the same order are regroupings of each other. -/
theorem regrouped_iff : Regrouped a b ↔ a.actions = b.actions := by
  refine ⟨Regrouped.actions_eq, fun h => ?_⟩
  -- both are regrouped to the same flat batch
  have hflat := regrouped_flat a
  rw [h] at hflat
  exact hflat.trans (regrouped_flat b).symm

/-! ## Operations -/

/-- The first action that is no operation decides. -/
theorem operations_eq_error {cause : Error} :
    intent.operations = .error cause ↔
      ∃ before first after, intent.actions = before ++ first :: after
        ∧ (∀ action ∈ before, ∃ body, action.body = .ok body) ∧ first.body = .error cause := by
  have hfails : ∀ action : Action, (do return .ofBody (← action.body) : Except Error Operation)
      = .error cause ↔ action.body = .error cause := by
    intro action
    rw [Except.bind_eq_error]
    refine or_iff_left ?_
    rintro ⟨body, -, h⟩
    cases h
  have hbody : ∀ action : Action, (∃ operation, (do return .ofBody (← action.body) :
      Except Error Operation) = .ok operation) ↔ ∃ body, action.body = .ok body := by
    intro action
    constructor
    · rintro ⟨operation, h⟩
      obtain ⟨body, hbody, -⟩ := Except.bind_eq_ok.mp h
      exact ⟨body, hbody⟩
    · rintro ⟨body, hbody⟩
      exact ⟨_, Except.bind_eq_ok.mpr ⟨body, hbody, rfl⟩⟩
  rw [operations_eq_mapM, Except.mapM_eq_error]
  simp only [hfails, hbody]

/-- If the operations do not fail, each action is an operation. -/
theorem forall_exists_body {all : List Operation} (h : intent.operations = .ok all) :
    ∀ action ∈ intent.actions, ∃ body, action.body = .ok body :=
  forall_mem_of_forall₂ (forall₂_of_operations h).flip fun _ _ ⟨body, hbody, _⟩ => ⟨body, hbody⟩

/-- The operations stand where the actions do. -/
theorem exists_getElem?_operations {all : List Operation} (h : intent.operations = .ok all)
    {i : Nat} {action : Action} (haction : intent.actions[i]? = some action) :
    ∃ body, action.body = .ok body ∧ all[i]? = some (.ofBody body) := by
  obtain ⟨hlength, hall⟩ := List.forall₂_iff_get.mp (forall₂_of_operations h)
  obtain ⟨hi, rfl⟩ := List.getElem?_eq_some_iff.mp haction
  obtain ⟨body, hbody, hoperation⟩ := hall i hi (hlength ▸ hi)
  exact ⟨body, hbody, List.getElem?_eq_some_iff.mpr ⟨hlength ▸ hi, hoperation⟩⟩

/-! ## Building -/

/-- What is built hangs on the actions only. -/
theorem build_congr (h : a.actions = b.actions) : a.build context = b.build context := by
  unfold build
  rw [operations_eq_mapM a, operations_eq_mapM b, h]

/-- The operations are worked out right after the source is read. -/
theorem build_eq_error_of_operations {source : MuxedAccount} {cause : Error}
    (hsource : MuxedAccount.ofAddress context.source = .ok source)
    (h : intent.operations = .error cause) : intent.build context = .error cause := by
  unfold build
  rw [hsource, h]
  rfl

/-- A transaction is built from the actions of an intent in order, and other batches of the same actions
make no difference.  The first action that no operation can be made of is reported, whatever the memo and
the fee are.  What is built has one operation for each action, for the source account, and the fee is for
that many. -/
theorem build_in_order (intent : Intent) (context : Context) :
    (∀ other : Intent, (Regrouped intent other ↔ intent.actions = other.actions)
      ∧ (Regrouped intent other → other.build context = intent.build context))
    ∧ ∀ source, MuxedAccount.ofAddress context.source = .ok source →
      ((∃ action ∈ intent.actions, ∀ body, action.body ≠ .ok body) →
        ∃ before first after cause, intent.actions = before ++ first :: after
          ∧ (∀ action ∈ before, ∃ body, action.body = .ok body)
          ∧ first.body = .error cause ∧ intent.build context = .error cause)
      ∧ ∀ tx, intent.build context = .ok tx →
        tx.operations.length = intent.actions.length
          ∧ (∀ (i : Nat) (action : Action), intent.actions[i]? = some action →
            ∃ body, action.body = .ok body ∧ tx.operations[i]? = some ⟨none, body⟩)
          ∧ tx.fee.toNat = context.baseFee.toNat * intent.actions.length := by
  refine ⟨fun other => ⟨regrouped_iff, fun h => (build_congr h.actions_eq).symm⟩, ?_⟩
  intro source hsource
  constructor
  · rintro ⟨action, hmem, hbody⟩
    cases hall : intent.operations with
    | ok all =>
      obtain ⟨body, h⟩ := forall_exists_body hall action hmem
      exact absurd h (hbody body)
    | error cause =>
      obtain ⟨before, first, after, hactions, hbefore, hfirst⟩ := operations_eq_error.mp hall
      exact ⟨before, first, after, cause, hactions, hbefore, hfirst,
        build_eq_error_of_operations hsource hall⟩
  · intro tx htx
    -- the draft has the operations in order, and the fee is worked out from it
    obtain ⟨draft, hall, hdraft, hbaseFee, -, -⟩ := exists_draft_of_build htx
    have hlength := (forall₂_of_operations hall).length_eq
    have hfee := Draft.toNat_fee_of_build hdraft
    have hoperations : tx.operations = draft.operations := by
      obtain ⟨-, -, -, -, -, rfl⟩ := Draft.build_eq_ok.mp hdraft
      rfl
    rw [hoperations, hfee, hbaseFee, hlength]
    exact ⟨rfl, fun i action haction => exists_getElem?_operations hall haction, rfl⟩

/-- Two actions in nested batches, some of them empty.  If nothing can be made of the second, that is
reported, and not the memo, which is no hash, or the fee, which is too low.  Otherwise they are built as if
they stood side by side. -/
theorem build_in_order_nested :
    let source : MuxedAccount := .plain ⟨List.replicate 32 0, rfl⟩
    let nested (second : Action) : Intent :=
      .batch [.batch [], .batch [.action (.bumpSequence 7)], .batch [.batch [.action second]]]
    let flat : Intent := .batch [.action (.bumpSequence 7), .action (.manageData "name" none)]
    (nested (.changeTrust "native" none)).build ⟨source.address, 1, 1, some (.hash "no hash"), none⟩
        = .error (.value (.argument .trustInNative))
      ∧ ∃ tx, (nested (.manageData "name" none)).build ⟨source.address, 1, 100, none, none⟩ = .ok tx
        ∧ flat.build ⟨source.address, 1, 100, none, none⟩ = .ok tx
        ∧ tx.operations.length = 2 ∧ tx.fee.toNat = 200
        ∧ tx.operations[1]? = some (.ofBody (.manageData ⟨"name", none⟩)) := by
  intro source nested flat
  have hsource := MuxedAccount.ofAddress_address source
  constructor
  · have hnative : (Action.changeTrust "native" none).body = .error (.value (.argument .trustInNative)) :=
      rfl
    have hnone : ∀ body, (Action.changeTrust "native" none).body ≠ .ok body := by
      intro body h
      cases hnative.symm.trans h
    obtain ⟨before, first, after, cause, hactions, hbefore, hfirst, hbuild⟩ :=
      ((build_in_order (nested (.changeTrust "native" none))
        ⟨source.address, 1, 1, some (.hash "no hash"), none⟩).2 source hsource).1
          ⟨_, List.mem_cons_of_mem _ List.mem_cons_self, hnone⟩
    rw [hbuild]
    obtain _ | ⟨action, _ | ⟨action', before⟩⟩ := before
    · cases hactions
      cases hfirst
    · cases hactions
      rw [Except.error.inj (hfirst.symm.trans hnative)]
    · have hnil := (List.cons.inj (List.cons.inj hactions).2).2
      exact absurd hnil.symm (List.append_ne_nil_of_right_ne_nil before (List.cons_ne_nil first after))
  · obtain ⟨hregrouped, hbuilt⟩ := build_in_order (nested (.manageData "name" none))
      ⟨source.address, 1, 100, none, none⟩
    have hall : (nested (.manageData "name" none)).operations
        = .ok [.ofBody (.bumpSequence ⟨7⟩), .ofBody (.manageData ⟨"name", none⟩)] := rfl
    have hbuild : ∃ tx, (nested (.manageData "name" none)).build
        ⟨source.address, 1, 100, none, none⟩ = .ok tx := by
      unfold build
      rw [hsource, hall]
      exact ⟨_, rfl⟩
    obtain ⟨tx, htx⟩ := hbuild
    obtain ⟨hlength, hoperations, hfee⟩ := (hbuilt source hsource).2 tx htx
    obtain ⟨body, hbody, hoperation⟩ := hoperations 1 _ rfl
    cases hbody
    obtain ⟨hiff, hsame⟩ := hregrouped flat
    exact ⟨tx, htx, (hsame (hiff.mpr rfl)).trans htx, hlength, hfee, hoperation⟩

end LedgerTx.Intent
