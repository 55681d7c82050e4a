import LedgerTx.Proofs.Transaction.Log
import LedgerTx.Proofs.Transaction.Reached

namespace LedgerTx

/-! # What a transaction costs

The fee of a transaction is set when it is built, and then only fees for resources are added to it.  Since
a fee that does not fit is refused, the fee always is the exact sum, over any run of edits and after the
transaction has been written and read. -/

/-! ## When a transaction is built -/

/-- Only texts in memos have a length to check. -/
theorem Draft.memoLength_le_iff {memo : Memo} :
    memoLength memo ≤ Memo.maxText ↔ ∀ text, memo = .text text → (Utf8.encode text).length ≤ 28 := by
  constructor
  · rintro h text rfl
    exact h
  · intro h
    cases memo with
    | text text => exact h text rfl
    | none | id _ | hash _ | «return» _ => exact Nat.zero_le _

/-- A draft is built within four limits: of the operations, the base fee, the memo and the fee. -/
theorem Draft.exists_build_iff {draft : Draft} :
    (∃ tx, draft.build = .ok tx) ↔
      (1 ≤ draft.operations.length ∧ draft.operations.length ≤ 100) ∧ 100 ≤ draft.baseFee
        ∧ (∀ text, draft.memo = .text text → (Utf8.encode text).length ≤ 28)
        ∧ draft.baseFee.toNat * draft.operations.length ≤ 2 ^ 32 - 1 := by
  rw [← memoLength_le_iff]
  have hsize : UInt32.size = 2 ^ 32 := rfl
  constructor
  · rintro ⟨tx, htx⟩
    obtain ⟨hsome, hcount, hbase, hmemo, hfee, -⟩ := build_eq_ok.mp htx
    exact ⟨⟨Nat.pos_of_ne_zero hsome, hcount⟩, hbase, hmemo, by omega⟩
  · rintro ⟨⟨hsome, hcount⟩, hbase, hmemo, hfee⟩
    exact ⟨_, build_eq_ok.mpr ⟨Nat.ne_of_gt hsome, hcount, hbase, hmemo, by omega, rfl⟩⟩

/-- The fee that is built is the exact product. -/
theorem Draft.toNat_fee_of_build {draft : Draft} {tx : Transaction} (h : draft.build = .ok tx) :
    tx.fee.toNat = draft.baseFee.toNat * draft.operations.length := by
  obtain ⟨-, -, -, -, hfee, rfl⟩ := build_eq_ok.mp h
  exact UInt32.toNat_ofNat_of_lt' hfee

/-! ## Single calls -/

/-- What a call has added to the fee. -/
def Call.paid (call : Call Edit Error (Signed Transaction) Bool) : Nat :=
  match call.request, call.result with
  | .addResourceFee fee, .ok _ => fee.toNat
  | _, _ => 0

/-- What calls have added to the fee. -/
def paid : List (Call Edit Error (Signed Transaction) Bool) → Nat
  | [] => 0
  | call :: calls => call.paid + paid calls

namespace Signed

/-- A change of the transaction keeps the fee, if it does so by itself. -/
theorem fee_changeBody {change? : Transaction → Option Transaction} {signed : Signed Transaction}
    (hchange : ∀ tx, change? signed.tx = some tx → tx.fee = signed.tx.fee) :
    ((changeBody change?).call signed).2.tx.fee = signed.tx.fee := by
  rw [call_changeBody]
  cases htx : change? signed.tx with
  | none => rfl
  | some tx => exact hchange tx htx

/-- Of all edits only one changes the fee. -/
theorem fee_edit {signed : Signed Transaction} {edit : Edit}
    (hother : ∀ fee, edit ≠ .addResourceFee fee) :
    ((Signed.edit edit).call signed).2.tx.fee = signed.tx.fee := by
  cases edit with
  | addResourceFee fee => exact absurd rfl (hother fee)
  | endorse endorsement =>
    rw [Signed.edit, Method.call_bind_pure, tx_endorse]
  | setSorobanData data =>
    rw [Signed.edit]
    refine fee_changeBody fun tx hsome => ?_
    cases hsome
    rfl
  | setAuthorizations auth =>
    rw [Signed.edit]
    refine fee_changeBody fun tx hsome => ?_
    obtain ⟨operations, -, rfl⟩ := Option.map_eq_some_iff.mp hsome
    rfl
  | setFootprint footprint =>
    rw [Signed.edit]
    refine fee_changeBody fun tx hsome => ?_
    unfold Transaction.setFootprint? at hsome
    split at hsome
    · cases hsome
      rfl
    · cases hsome

/-- A fee for resources is added as a whole or not at all. -/
theorem call_edit_addResourceFee {signed : Signed Transaction} {fee : UInt32} :
    (Signed.edit (.addResourceFee fee)).call signed =
      if UInt32.size ≤ signed.tx.fee.toNat + fee.toNat then
        (.error (.value (.argument .feeOverflow)), signed)
      else
        (.ok true, { signed with
          tx := { signed.tx with fee := UInt32.ofNat (signed.tx.fee.toNat + fee.toNat) } }) := by
  rw [Signed.edit, Method.call_bind_pure, call_addResourceFee]
  split
  · rfl
  · rfl

end Signed

/-- The step: an edit adds to the fee what its call is paid. -/
theorem Signed.toNat_fee_edit (signed : Signed Transaction) (edit : Edit) :
    ((Signed.edit edit).call signed).2.tx.fee.toNat = signed.tx.fee.toNat
      + Call.paid ⟨edit, signed, ((Signed.edit edit).call signed).1, ((Signed.edit edit).call signed).2⟩ := by
  -- only one kind of edit adds to the fee
  by_cases hfee : ∃ fee, edit = .addResourceFee fee
  · obtain ⟨fee, rfl⟩ := hfee
    rw [call_edit_addResourceFee]
    split
    · rfl
    · rename_i hroom
      exact UInt32.toNat_ofNat_of_lt' (Nat.lt_of_not_le hroom)
  · have hother : ∀ fee, edit ≠ .addResourceFee fee := fun fee heq => hfee ⟨fee, heq⟩
    have hpaid : ∀ result after, Call.paid ⟨edit, signed, result, after⟩ = 0 := by
      intro result after
      cases edit with
      | addResourceFee fee => exact absurd rfl (hother fee)
      | endorse _ | setSorobanData _ | setAuthorizations _ | setFootprint _ => rfl
    rw [fee_edit hother, hpaid, Nat.add_zero]

/-- A fee for resources is added exactly if the sum fits. -/
theorem Call.addResourceFee_succeeds_iff {call : Call Edit Error (Signed Transaction) Bool} {fee : UInt32}
    (h : (Signed.edit call.request).call call.before = (call.result, call.after))
    (hrequest : call.request = .addResourceFee fee) :
    (∃ changed, call.result = .ok changed) ↔ call.before.tx.fee.toNat + fee.toNat ≤ 2 ^ 32 - 1 := by
  have hsize : UInt32.size = 2 ^ 32 := rfl
  rw [hrequest, Signed.call_edit_addResourceFee] at h
  split at h
  · obtain ⟨hresult, -⟩ := Prod.mk.inj h
    rw [← hresult]
    constructor
    · rintro ⟨changed, hok⟩
      cases hok
    · intro hroom
      omega
  · obtain ⟨hresult, -⟩ := Prod.mk.inj h
    rw [← hresult]
    constructor
    · intro _
      omega
    · intro _
      exact ⟨true, rfl⟩

/-! ## Runs -/

/-- A run adds to the fee what its calls have been paid. -/
theorem Signed.toNat_fee_afterCalls (signed : Signed Transaction) (edits : List Edit) :
    (afterCalls Signed.edit signed edits).tx.fee.toNat
      = signed.tx.fee.toNat + paid (calls Signed.edit signed edits) := by
  induction edits generalizing signed with
  | nil => rfl
  | cons edit edits ih =>
    rw [calls_cons, afterCalls_cons, ih, toNat_fee_edit, paid, Nat.add_assoc]

/-- A call of a run finds the fee that the calls before it have left. -/
theorem Signed.toNat_fee_before {signed : Signed Transaction} {edits : List Edit}
    {earlier later : List (Call Edit Error (Signed Transaction) Bool)}
    {call : Call Edit Error (Signed Transaction) Bool}
    (h : calls Signed.edit signed edits = earlier ++ call :: later) :
    call.before.tx.fee.toNat = signed.tx.fee.toNat + paid earlier := by
  induction edits generalizing signed earlier with
  | nil =>
    have hlength := congrArg List.length h
    rw [calls, List.length_append, List.length_cons] at hlength
    cases hlength
  | cons edit edits ih =>
    rw [calls_cons] at h
    -- the call is the first one, or it is among the others
    cases earlier with
    | nil =>
      obtain ⟨rfl, -⟩ := List.cons.inj h
      rfl
    | cons first earlier =>
      obtain ⟨rfl, hrest⟩ := List.cons.inj h
      rw [ih hrest, toNat_fee_edit, paid, Nat.add_assoc]

/-! ## After writing and reading -/

/-- The first of two parts that were written is read back if it keeps the limits, whatever the second one
is. -/
theorem Codec.Composed.front_of_pair {lenient : Bool} {α β : Type} {first : Codec α} {second : Codec β}
    {rules : Rules} {v w : α × β} {rest rest' : List UInt8} (h : Composed lenient first)
    (hfits : first.fits rules v.1 = true)
    (hread : (Codec.pair first second).decode rules ((Codec.pair first second).encode v ++ rest)
      = .ok (w, rest')) :
    w.1 = v.1 ∧ second.decode rules (second.encode v.2 ++ rest) = .ok (w.2, rest') := by
  rw [pair_encode, List.append_assoc] at hread
  obtain ⟨mid, hfirst, hsecond⟩ := pair_decode_eq_ok.mp hread
  rw [h.decode_encode hfits] at hfirst
  obtain ⟨hv, hmid⟩ := Prod.mk.inj (Except.ok.inj hfirst)
  rw [hv, hmid]
  exact ⟨rfl, hsecond⟩

/-- The source and the fee are in front of everything that may be too long to be read back. -/
theorem Transaction.fee_of_decode_encode {tx found : Transaction} {rest rest' : List UInt8}
    (hread : layout.wire.decode .standard (layout.wire.encode tx ++ rest) = .ok (found, rest')) :
    found.fee = tx.fee := by
  have hparts := Codec.map_decode_eq_ok.mp hread
  have hsource : Codec.Composed true MuxedAccount.layout.wire := MuxedAccount.hasParts.wire
  have hfee : Codec.Composed true Codec.uint32 := .uint32
  obtain ⟨-, hafter⟩ := hsource.front_of_pair (MuxedAccount.fits tx.source) hparts
  exact (hfee.front_of_pair rfl hafter).1

/-- What is read back has the same fee, even if it has lost something else. -/
theorem Signed.fee_of_ofBase64 {signed found : Signed Transaction}
    (h : ofBase64 (Envelope.transaction signed).toBase64 = .ok found) : found.tx.fee = signed.tx.fee := by
  obtain ⟨envelope, henvelope, hfound⟩ := ofBase64_eq_ok.mp h
  replace henvelope := Codec.ofBase64_encode.mp henvelope
  have hbytes : Envelope.layout.wire.encode (.transaction signed)
      = (Codec.constant EnvelopeKind).encode .transaction
        ++ (layout Transaction.layout).wire.encode signed :=
    Envelope.encode_arm .transaction signed
  cases envelope with
  | feeBump _ => cases hfound
  | legacy legacy =>
    -- the bytes say which arm was written
    obtain ⟨rest, hlegacy, -⟩ := Envelope.decode_arm .legacy henvelope
    rw [hlegacy] at hbytes
    cases hbytes
  | transaction signed' =>
    cases hfound
    obtain ⟨rest, hbytes', hread⟩ := Envelope.decode_arm .transaction henvelope
    rw [hbytes'] at hbytes
    obtain rfl := List.append_cancel_left hbytes
    obtain ⟨mid, htx, -⟩ := decode_eq_ok.mp hread
    rw [encode_eq] at htx
    exact Transaction.fee_of_decode_encode htx

/-- A run of edits leads to a transaction that can be reached. -/
theorem Signed.reached_afterCalls {signed : Signed Transaction} {edits : List Edit}
    (h : Reached signed) (hedits : ∀ edit ∈ edits, edit.Readable) :
    Reached (afterCalls Signed.edit signed edits) := by
  induction edits generalizing signed with
  | nil => exact h
  | cons edit edits ih =>
    obtain ⟨hedit, hrest⟩ := List.forall_mem_cons.mp hedits
    rw [afterCalls_cons]
    exact ih (.edit edit h hedit) hrest

/-! ## Accounting -/

/-- How the fee of a transaction is accounted for over runs of edits, from what it was at first. -/
structure Signed.FeeAccounted (signed : Signed Transaction) (start : Nat) : Prop where
  /-- After a run the fee is the exact sum. -/
  fee : ∀ edits, (afterCalls Signed.edit signed edits).tx.fee.toNat
    = start + paid (calls Signed.edit signed edits)
  /-- A call within a run succeeds as long as the exact sum can be written. -/
  succeeds : ∀ edits earlier call later fee,
    calls Signed.edit signed edits = earlier ++ call :: later → call.request = .addResourceFee fee →
      ((∃ changed, call.result = .ok changed) ↔ start + paid earlier + fee.toNat ≤ 2 ^ 32 - 1)
  /-- A call that fails changes nothing. -/
  atomic : ∀ edits, ∀ call ∈ calls Signed.edit signed edits, ∀ cause, call.result = .error cause →
    call.after = call.before
  /-- Whatever is read from the envelope of the transaction, its fee is the same. -/
  decoded : ∀ edits found,
    ofBase64 (Envelope.transaction (afterCalls Signed.edit signed edits)).toBase64 = .ok found →
      found.tx.fee.toNat = start + paid (calls Signed.edit signed edits)

/-- Every transaction is accounted for from the fee that it has. -/
theorem Signed.feeAccounted (signed : Signed Transaction) :
    FeeAccounted signed signed.tx.fee.toNat := by
  constructor
  · exact toNat_fee_afterCalls signed
  · intro edits earlier call later fee hsplit hrequest
    have hmem : call ∈ calls Signed.edit signed edits := by
      rw [hsplit]
      exact List.mem_append_right earlier (List.mem_cons_self ..)
    -- the fee before the call is the sum of what was paid until then
    rw [← toNat_fee_before hsplit]
    exact Call.addResourceFee_succeeds_iff (call_of_mem_calls hmem) hrequest
  · intro edits call hmem cause hfails
    exact (Call.logs_of_edit (call_of_mem_calls hmem)).atomic cause hfails
  · intro edits found hfound
    rw [fee_of_ofBase64 hfound]
    exact toNat_fee_afterCalls signed edits

/-- A transaction is built exactly within the four limits, and from then on its fee is the base fee times
the number of operations and the exact sum of what was added; what keeps the limits of reading is read
back with that fee. -/
theorem Draft.fee_accounted (draft : Draft) :
    ((∃ tx, draft.build = .ok tx) ↔
      (1 ≤ draft.operations.length ∧ draft.operations.length ≤ 100) ∧ 100 ≤ draft.baseFee
        ∧ (∀ text, draft.memo = .text text → (Utf8.encode text).length ≤ 28)
        ∧ draft.baseFee.toNat * draft.operations.length ≤ 2 ^ 32 - 1)
      ∧ ∀ tx, draft.build = .ok tx →
        Signed.FeeAccounted (.unsigned tx) (draft.baseFee.toNat * draft.operations.length)
          ∧ (draft.Readable → ∀ edits : List Edit, (∀ edit ∈ edits, edit.Readable) →
            Signed.ofBase64
                (Envelope.transaction (afterCalls Signed.edit (.unsigned tx) edits)).toBase64
              = .ok (afterCalls Signed.edit (.unsigned tx) edits)) := by
  refine ⟨exists_build_iff, ?_⟩
  intro tx htx
  rw [← toNat_fee_of_build htx]
  refine ⟨Signed.feeAccounted (.unsigned tx), ?_⟩
  intro hdraft edits hedits
  -- what is read back keeps the limits, since it can be reached
  have hreached := Signed.reached_afterCalls (.build hdraft htx) hedits
  have hfits : Envelope.layout.wire.fits .standard
      (.transaction (afterCalls Signed.edit (.unsigned tx) edits)) = true :=
    (Envelope.fits_arm .transaction _).trans hreached.fits
  exact Signed.ofBase64_eq_ok.mpr ⟨_, Envelope.hasParts.wire.ofBase64_toBase64 hfits, rfl⟩

/-- A fee that does not fit is refused between two that do. -/
theorem Draft.fee_accounted_of_refused :
    let account : MuxedAccount := .plain ⟨List.replicate 32 1, rfl⟩
    let draft : Draft := { source := account, sequence := 1, operations := [.ofBody .inflation] }
    let tx : Transaction := ⟨account, 100, 1, .none, .none, [.ofBody .inflation], none⟩
    let edits : List Edit := [.addResourceFee 50, .addResourceFee 4294967295, .addResourceFee 10]
    draft.build = .ok tx
      ∧ (afterCalls Signed.edit (.unsigned tx) edits).tx.fee.toNat = 160
      ∧ Signed.ofBase64 (Envelope.transaction (afterCalls Signed.edit (.unsigned tx) edits)).toBase64
        = .ok (afterCalls Signed.edit (.unsigned tx) edits) := by
  intro account draft tx edits
  have hbuild : draft.build = .ok tx := rfl
  have hreadable : draft.Readable := by
    refine ⟨⟨[0, 0, 0, 0], rfl⟩, fun operation hmem => ?_, fun data hdata => ?_⟩
    · rw [List.mem_singleton.mp hmem]
      exact Operation.hasParts.wire.readable_iff.mpr rfl
    · cases hdata
  have hedits : ∀ edit ∈ edits, edit.Readable := by
    intro edit hmem
    simp only [edits, List.mem_cons, List.not_mem_nil, or_false] at hmem
    rcases hmem with rfl | rfl | rfl
    · exact trivial
    · exact trivial
    · exact trivial
  obtain ⟨haccounted, hreads⟩ := (fee_accounted draft).2 tx hbuild
  have hpaid : paid (calls Signed.edit (.unsigned tx) edits) = 60 := by
    decide +kernel
  have hfee := haccounted.fee edits
  rw [hpaid] at hfee
  exact ⟨hbuild, hfee, hreads hreadable edits hedits⟩

end LedgerTx
