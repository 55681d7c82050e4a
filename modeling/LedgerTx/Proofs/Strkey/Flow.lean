import LedgerTx.Proofs.Strkey.Spelling

namespace LedgerTx.Base32

/-! # Bits on their way through the buffer

Bits that are shifted out of the buffer's word are gone.  Both loops, the one that writes symbols and the
one that reads them, take a number of bits at a time and write another number of bits as soon as there are
as many, so a bit has long been written when it leaves the word. -/

/-! ## The word -/

namespace Buffer

/-- The bits of the word, stale ones among them. -/
def word (buffer : Buffer) : List Bool :=
  Bits.ofNat 32 buffer.bits.toNat

/-- The bits at the upper end of the word, which leave it when as many are shifted in. -/
def top (buffer : Buffer) (width : Nat) : List Bool :=
  Bits.ofNat width (buffer.bits.toNat >>> (32 - width))

@[simp]
theorem length_word (buffer : Buffer) : buffer.word.length = 32 :=
  Bits.length_ofNat _ _

/-- What leaves the word and what it holds then are what it held and what was shifted in. -/
theorem top_append_word_push {buffer : Buffer} {width : Nat} {value : UInt32} (hwidth : width < 32)
    (hvalue : value.toNat < 2 ^ width) :
    buffer.top width ++ (buffer.push width value).word
      = buffer.word ++ Bits.ofNat width value.toNat := by
  have hroom : 32 - width + width = 32 := by omega
  -- all that the word keeps is as good as live
  have hkept : (push ⟨buffer.bits, 32 - width⟩ width value).liveBits
      = liveBits ⟨buffer.bits, 32 - width⟩ ++ Bits.ofNat width value.toNat :=
    liveBits_push hwidth (Nat.le_of_eq hroom) hvalue
  have hpushed : (push ⟨buffer.bits, 32 - width⟩ width value).liveBits = (buffer.push width value).word := by
    show Bits.ofNat (32 - width + width) (buffer.push width value).bits.toNat = _
    rw [hroom]
    rfl
  have hsplit := Bits.ofNat_add width (32 - width) buffer.bits.toNat
  rw [Nat.add_sub_cancel' (Nat.le_of_lt hwidth)] at hsplit
  rw [← hpushed, hkept, ← List.append_assoc, word, hsplit]
  rfl

end Buffer

/-! ## States -/

/-- A buffer on its way, with all the bits that have been shifted into it, the numbers that have been
written from its front, and the bits that have been shifted out of its word. -/
structure Flow where
  buffer : Buffer
  taken : List Bool
  written : List Nat
  lost : List Bool

namespace Flow

/-- Before any bits. -/
def start : Flow := ⟨.empty, [], [], []⟩

/-- Shifts in the bits of a number; as many leave the word at its upper end. -/
def push (flow : Flow) (width value : Nat) : Flow where
  buffer := flow.buffer.push width (UInt32.ofNat value)
  taken := flow.taken ++ Bits.ofNat width value
  written := flow.written
  lost := flow.lost ++ flow.buffer.top width

/-- Writes the front of the live bits. -/
def pop (flow : Flow) (width : Nat) : Flow where
  buffer := flow.buffer.pop width
  taken := flow.taken
  written := flow.written ++ [flow.buffer.front width]
  lost := flow.lost

/-- What is written and what is live are the bits that were taken, in their order, and the word is a window
of 32 bits on zeros and the bits that were taken. -/
structure Intact (width group : Nat) (flow : Flow) : Prop where
  live_lt : flow.buffer.live < width + group
  waiting : flow.taken = flow.written.flatMap (Bits.ofNat group) ++ flow.buffer.liveBits
  window : List.replicate 32 false ++ flow.taken = flow.lost ++ flow.buffer.word

namespace Intact

variable {width group : Nat} {flow : Flow}

theorem start (hpos : 0 < group) : Intact width group start where
  live_lt := Nat.add_pos_right width hpos
  waiting := rfl
  window := by decide

/-- The upper end of the word makes room for the bits that are shifted in. -/
theorem push (h : Intact width group flow) (hfit : width + group ≤ 32)
    (hneeds : flow.buffer.live < group) {value : Nat} (hvalue : value < 2 ^ width) :
    Intact width group (flow.push width value) := by
  have hsize : 2 ^ width ≤ 2 ^ 32 := Nat.pow_le_pow_right (by decide) (by omega)
  have hword : (UInt32.ofNat value).toNat = value :=
    UInt32.toNat_ofNat_of_lt' (Nat.lt_of_lt_of_le hvalue hsize)
  have hbits : (UInt32.ofNat value).toNat < 2 ^ width := by
    rw [hword]
    exact hvalue
  have hwidth : width < 32 := by omega
  constructor
  -- fewer bits were live than make a group
  · show flow.buffer.live + width < width + group
    omega
  · have hlive : (flow.buffer.push width (UInt32.ofNat value)).liveBits
        = flow.buffer.liveBits ++ Bits.ofNat width (UInt32.ofNat value).toNat :=
      Buffer.liveBits_push hwidth (by omega) hbits
    show flow.taken ++ Bits.ofNat width value = flow.written.flatMap (Bits.ofNat group)
      ++ (flow.buffer.push width (UInt32.ofNat value)).liveBits
    rw [hlive, hword, h.waiting, List.append_assoc]
  · have hpushed : flow.buffer.top width ++ (flow.buffer.push width (UInt32.ofNat value)).word
        = flow.buffer.word ++ Bits.ofNat width (UInt32.ofNat value).toNat :=
      Buffer.top_append_word_push hwidth hbits
    show List.replicate 32 false ++ (flow.taken ++ Bits.ofNat width value)
      = flow.lost ++ flow.buffer.top width ++ (flow.buffer.push width (UInt32.ofNat value)).word
    rw [List.append_assoc flow.lost, hpushed, hword, ← List.append_assoc, h.window, List.append_assoc]

/-- Writing takes bits from the front of the live ones, and none from the word. -/
theorem pop (h : Intact width group flow) (hfit : width + group ≤ 32)
    (hfull : group ≤ flow.buffer.live) : Intact width group (flow.pop group) where
  live_lt := Nat.lt_of_le_of_lt (Nat.sub_le _ _) h.live_lt
  waiting := by
    have hlive := h.live_lt
    have hfront := Buffer.liveBits_front hfull (by omega)
    show flow.taken = (flow.written ++ [flow.buffer.front group]).flatMap (Bits.ofNat group)
      ++ (flow.buffer.pop group).liveBits
    rw [h.waiting, hfront, List.flatMap_append, List.flatMap_singleton, List.append_assoc]
  window := h.window

/-- Fewer bits are live than the word holds, so all that have left it are written. -/
theorem lost_isPrefix (h : Intact width group flow) (hfit : width + group ≤ 32) :
    flow.lost <+: List.replicate 32 false ++ flow.written.flatMap (Bits.ofNat group) := by
  have hlost : flow.lost <+: List.replicate 32 false ++ flow.taken := by
    rw [h.window]
    exact List.prefix_append _ _
  have hwritten : List.replicate 32 false ++ flow.written.flatMap (Bits.ofNat group)
      <+: List.replicate 32 false ++ flow.taken := by
    rw [h.waiting, ← List.append_assoc]
    exact List.prefix_append _ _
  -- the word has 32 bits and not as many are live: what is lost is no longer than what is written
  have hwindow := congrArg List.length h.window
  have hwaiting := congrArg List.length h.waiting
  have hlive := h.live_lt
  refine List.prefix_of_prefix_length_le hlost hwritten ?_
  simp only [List.length_append, List.length_replicate, Buffer.length_word,
    Buffer.length_liveBits] at hwindow hwaiting ⊢
  omega

end Intact

/-! ## Loops -/

/-- The states of a loop that takes the numbers of items, `width` bits each, and writes `group` bits
whenever there are as many; each with the items that are still to be taken. -/
inductive Visited {α : Type} (width group : Nat) (value? : α → Option Nat) (items : List α) :
    List α → Flow → Prop
  | start : Visited width group value? items items start
  | push {item : α} {rest : List α} {flow : Flow} {value : Nat}
      (h : Visited width group value? items (item :: rest) flow) (hneeds : flow.buffer.live < group)
      (hvalue : value? item = some value) :
      Visited width group value? items rest (flow.push width value)
  | pop {rest : List α} {flow : Flow} (h : Visited width group value? items rest flow)
      (hfull : group ≤ flow.buffer.live) : Visited width group value? items rest (flow.pop group)

namespace Visited

variable {α : Type} {width group : Nat} {value? : α → Option Nat} {items rest : List α} {flow : Flow}

/-- No loop loses bits, if the word has room for two groups. -/
theorem intact (h : Visited width group value? items rest flow) (hpos : 0 < group)
    (hfit : width + group ≤ 32) (hvalues : ∀ {item value}, value? item = some value → value < 2 ^ width) :
    flow.Intact width group := by
  induction h with
  | start => exact .start hpos
  | push _ hneeds hvalue ih => exact ih.push hfit hneeds (hvalues hvalue)
  | pop _ hfull ih => exact ih.pop hfit hfull

/-- The bits that have been taken are those of the items that are no longer to be taken. -/
theorem exists_front (h : Visited width group value? items rest flow) :
    ∃ front, front ++ rest = items
      ∧ flow.taken = (front.filterMap value?).flatMap (Bits.ofNat width) := by
  induction h with
  | start => exact ⟨[], rfl, rfl⟩
  | @push item rest flow value _ _ hvalue ih =>
    obtain ⟨front, hitems, htaken⟩ := ih
    refine ⟨front ++ [item], by rw [List.append_assoc, List.singleton_append, hitems], ?_⟩
    have hlast : [item].filterMap value? = [value] := List.filterMap_cons_some hvalue
    show flow.taken ++ Bits.ofNat width value = _
    rw [List.filterMap_append, hlast, List.flatMap_append, List.flatMap_singleton, htaken]
  | pop _ _ ih => exact ih

/-- The loop writes until fewer bits are live than make a group. -/
theorem exists_drained (h : Visited width group value? items rest flow) (hpos : 0 < group) :
    ∃ drained, Visited width group value? items rest drained ∧ drained.buffer.live < group := by
  -- each group that is written leaves fewer live bits
  induction hlive : flow.buffer.live using Nat.strong_induction_on generalizing flow with
  | _ live ih =>
    by_cases hfull : group ≤ flow.buffer.live
    · have hless : (flow.pop group).buffer.live < live := by
        show flow.buffer.live - group < live
        omega
      exact ih _ hless (h.pop hfull) rfl
    · exact ⟨flow, h, Nat.lt_of_not_le hfull⟩

/-- The loop gets behind every front of which all items have numbers. -/
theorem exists_behind (hpos : 0 < group) {front : List α} (hitems : front ++ rest = items)
    (hfront : ∀ item ∈ front, (value? item).isSome) :
    ∃ flow, Visited width group value? items rest flow ∧ flow.buffer.live < group := by
  -- the last item is the one that was taken last
  induction front using List.reverseRecOn generalizing rest with
  | nil =>
    cases hitems
    exact ⟨.start, .start, hpos⟩
  | append_singleton front item ih =>
    rw [List.append_assoc, List.singleton_append] at hitems
    obtain ⟨flow, hvisited, hneeds⟩ :=
      ih hitems fun other hother => hfront other (List.mem_append_left _ hother)
    -- the item has a number, so it is taken once there is room
    obtain ⟨value, hvalue⟩ :=
      Option.isSome_iff_exists.mp (hfront item (List.mem_append_right _ (List.mem_singleton_self item)))
    exact (hvisited.push hneeds hvalue).exists_drained hpos

end Visited

end Flow

/-- What a loop does with its items, if it comes to `result` and goes on from each state as `resume` says:
it gets behind every front of its items that has numbers, and when a bit leaves the word, in any of its
states, the bit has been written.  The first bits to leave the word are the zeros that it begins with. -/
structure LosesNothing {α β : Type} (width group : Nat) (value? : α → Option Nat) (items : List α)
    (result : β) (resume : Flow → List α → β) : Prop where
  reaches : ∀ front rest, front ++ rest = items → (∀ item ∈ front, (value? item).isSome) →
    ∃ flow, Flow.Visited width group value? items rest flow
      ∧ flow.taken = (front.filterMap value?).flatMap (Bits.ofNat width)
  resumes : ∀ rest flow, Flow.Visited width group value? items rest flow → resume flow rest = result
  keeps : ∀ rest flow, Flow.Visited width group value? items rest flow →
    flow.Intact width group
      ∧ flow.lost <+: List.replicate 32 false ++ flow.written.flatMap (Bits.ofNat group)

/-- A loop of which the word has room for what it takes and what it writes at a time. -/
theorem LosesNothing.of_fit {α β : Type} {width group : Nat} {value? : α → Option Nat} {items : List α}
    {result : β} {resume : Flow → List α → β} (hpos : 0 < group) (hfit : width + group ≤ 32)
    (hvalues : ∀ {item value}, value? item = some value → value < 2 ^ width)
    (hresume : ∀ {rest flow}, Flow.Visited width group value? items rest flow → resume flow rest = result) :
    LosesNothing width group value? items result resume where
  reaches front rest hitems hfront := by
    obtain ⟨flow, hvisited, -⟩ := Flow.Visited.exists_behind hpos hitems hfront
    obtain ⟨taken, htaken, hbits⟩ := hvisited.exists_front
    refine ⟨flow, hvisited, ?_⟩
    rw [hbits, List.append_cancel_right (htaken.trans hitems.symm)]
  resumes _ _ h := hresume h
  keeps _ _ h :=
    have hintact := h.intact hpos hfit hvalues
    ⟨hintact, hintact.lost_isPrefix hfit⟩

/-! ## Writing -/

/-- The number of a byte; every byte has one. -/
def byteValue? (b : UInt8) : Option Nat :=
  some b.toNat

/-- The symbols for the live bits and the bytes after them, once whole groups are written. -/
def encodeDue (buffer : Buffer) (rest : List UInt8) : List Char :=
  (drain buffer).1 ++ encodeFrom (drain buffer).2 rest

/-- The text that a state comes to. -/
def encodeOn (flow : Flow) (rest : List UInt8) : List Char :=
  flow.written.map symbol ++ encodeDue flow.buffer rest

/-- Between two bytes nothing is left to drain. -/
theorem encodeDue_of_lt {buffer : Buffer} (h : buffer.live < 5) (rest : List UInt8) :
    encodeDue buffer rest = encodeFrom buffer rest := by
  rw [encodeDue, drain, if_neg (Nat.not_le_of_lt h)]
  rfl

/-- With five live bits, a symbol is due. -/
theorem encodeDue_of_le {buffer : Buffer} (h : 5 ≤ buffer.live) (rest : List UInt8) :
    encodeDue buffer rest = symbol (buffer.front 5) :: encodeDue (buffer.pop 5) rest := by
  rw [encodeDue, drain, if_pos h]
  rfl

/-- From each state on, the loop comes to the same text. -/
theorem encodeOn_eq {bytes rest : List UInt8} {flow : Flow}
    (h : Flow.Visited 8 5 byteValue? bytes rest flow) : encodeOn flow rest = encode bytes := by
  induction h with
  | start => exact encodeDue_of_lt (by decide) bytes
  | @push b rest flow value _ hneeds hvalue ih =>
    cases hvalue
    -- a byte is taken in, and its groups are due
    have htaken : encodeFrom flow.buffer (b :: rest) = encodeDue (flow.push 8 b.toNat).buffer rest := by
      show _ = encodeDue (flow.buffer.push 8 (UInt32.ofNat b.toNat)) rest
      rw [UInt32.ofNat_uInt8ToNat]
      rfl
    rw [← ih, encodeOn, encodeOn, encodeDue_of_lt hneeds, htaken]
    rfl
  | @pop rest flow _ hfull ih =>
    have hwritten : (flow.pop 5).written.map symbol
        = flow.written.map symbol ++ [symbol (flow.buffer.front 5)] := List.map_append
    rw [← ih, encodeOn, encodeOn, encodeDue_of_le hfull, hwritten, List.append_assoc]
    rfl

/-- Writing takes eight bits and writes five, for which the word has room. -/
theorem encode_losesNothing (bytes : List UInt8) :
    LosesNothing 8 5 byteValue? bytes (encode bytes) encodeOn := by
  refine .of_fit (by decide) (by decide) (fun {b value} hvalue => ?_) encodeOn_eq
  cases hvalue
  exact b.toNat_lt

/-! ## Reading -/

/-- The bytes for the live bits and the symbols after them, once a whole byte is written. -/
def decodeDue (buffer : Buffer) (rest : List UInt8) : Except UInt8 (List UInt8) :=
  if 8 ≤ buffer.live then do
    let bytes ← decodeFrom (buffer.pop 8) rest
    return UInt8.ofNat (buffer.front 8) :: bytes
  else decodeFrom buffer rest

/-- The bytes that a state comes to. -/
def decodeOn (flow : Flow) (rest : List UInt8) : Except UInt8 (List UInt8) := do
  let bytes ← decodeDue flow.buffer rest
  return flow.written.map UInt8.ofNat ++ bytes

theorem decodeDue_of_lt {buffer : Buffer} (h : buffer.live < 8) (rest : List UInt8) :
    decodeDue buffer rest = decodeFrom buffer rest := by
  rw [decodeDue, if_neg (Nat.not_le_of_lt h)]

/-- No symbol brings so many bits that two bytes are to be written. -/
theorem decodeDue_of_le {buffer : Buffer} (h : 8 ≤ buffer.live) (hlt : buffer.live < 5 + 8)
    (rest : List UInt8) :
    decodeDue buffer rest
      = (decodeDue (buffer.pop 8) rest).map (UInt8.ofNat (buffer.front 8) :: ·) := by
  have hdrained : (buffer.pop 8).live < 8 := by
    show buffer.live - 8 < 8
    omega
  rw [decodeDue, if_pos h, decodeDue_of_lt hdrained]
  cases decodeFrom (buffer.pop 8) rest <;> rfl

/-- Every symbol has a number of five bits. -/
theorem symbolValue?_lt {b : UInt8} {value : Nat} (h : symbolValue? b = some value) : value < 2 ^ 5 := by
  unfold symbolValue? at h
  split at h
  -- letters have the numbers from 0 to 25, and digits those from 26 to 31
  · rename_i hletter
    cases h
    have hmost := UInt8.le_iff_toNat_le.mp hletter.2
    have hmax : (90 : UInt8).toNat = 90 := rfl
    omega
  · split at h
    · rename_i hdigit
      cases h
      have hmost := UInt8.le_iff_toNat_le.mp hdigit.2
      have hmax : (55 : UInt8).toNat = 55 := rfl
      omega
    · cases h

/-- From each state on, the loop comes to the same bytes. -/
theorem decodeOn_eq {bytes rest : List UInt8} {flow : Flow}
    (h : Flow.Visited 5 8 symbolValue? bytes rest flow) : decodeOn flow rest = decodeFrom .empty bytes := by
  induction h with
  | start => exact bind_pure _
  | @push b rest flow value _ hneeds hvalue ih =>
    have htaken : decodeFrom flow.buffer (b :: rest) = decodeDue (flow.push 5 value).buffer rest := by
      rw [decodeFrom, hvalue]
      rfl
    rw [← ih, decodeOn, decodeOn, decodeDue_of_lt hneeds, htaken]
    rfl
  | @pop rest flow h hfull ih =>
    -- what is left after one byte is less than another, so the loop goes on with the next symbol
    have hlive := (h.intact (by decide) (by decide) symbolValue?_lt).live_lt
    have hwritten : (flow.pop 8).written.map UInt8.ofNat
        = flow.written.map UInt8.ofNat ++ [UInt8.ofNat (flow.buffer.front 8)] := List.map_append
    rw [← ih, decodeOn, decodeOn, decodeDue_of_le hfull hlive, hwritten]
    show (decodeDue (flow.buffer.pop 8) rest >>= _) = _
    cases decodeDue (flow.buffer.pop 8) rest with
    | error b => rfl
    | ok bytes => exact congrArg Except.ok (List.append_assoc ..)

theorem decode_losesNothing (text : List Char) :
    LosesNothing 5 8 symbolValue? (Utf8.encode (String.ofList text)) (decode text) decodeOn :=
  .of_fit (by decide) (by decide) symbolValue?_lt decodeOn_eq

/-! ## Base32 -/

/-- A text in base32 is the bits of its bytes, five to a symbol, and is read as these bytes; both loops
write each bit before it leaves the word of the buffer. -/
theorem spelled_by_groups (bytes : List UInt8) :
    (encode bytes).map some
        = (groups 5 (filled 5 (bitsOf bytes))).map (fun five => alphabet[Bits.toNat five]?)
      ∧ (encode bytes).length = 8 * bytes.length ⌈/⌉ 5
      ∧ decode (encode bytes) = .ok bytes
      ∧ LosesNothing 8 5 byteValue? bytes (encode bytes) encodeOn
      ∧ ∀ text : List Char,
          LosesNothing 5 8 symbolValue? (Utf8.encode (String.ofList text)) (decode text) decodeOn :=
  ⟨map_some_encode bytes, length_encode bytes, decode_encode bytes, encode_losesNothing bytes,
    decode_losesNothing⟩

example : encode [0x66, 0x6f, 0x6f, 0x62, 0x61, 0x72] = "MZXW6YTBOI".toList := by
  cbv

end LedgerTx.Base32
